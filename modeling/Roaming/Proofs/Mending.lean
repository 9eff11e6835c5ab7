import Roaming.Text.Utf8
import Mathlib.Tactic.IntervalCases

/-!
# Bytes read as text

Any bytes can be read as text: a whole character stands for itself, and the replacement character
for what is none, taken as long as it could have become one (`Text.ReadsAs`). There is one such
text, and `Text.lossy` gives it.
-/

set_option autoImplicit false
set_option relaxedAutoImplicit false

namespace Roaming.Text

/-! ### What a text of bytes is -/

/-- Whether bytes begin a character that they do not complete. -/
def Begins (part : Bytes) : Prop := ∃ c tail, tail ≠ [] ∧ String.utf8EncodeChar c = part ++ tail

/-- Whether a part is ill-formed, before what follows it, and as long as it can be. -/
structure Breaks (part rest : Bytes) : Prop where
  noChar : ∀ c, ¬ String.utf8EncodeChar c <+: part ++ rest
  begins : part.length = 1 ∨ (part ≠ [] ∧ Begins part)
  ends : ∀ b tail, rest = b :: tail → ¬ Begins (part ++ [b])

/-- Whether bytes read as these characters. -/
inductive ReadsAs : Bytes → List Char → Prop where
  | done : ReadsAs [] []
  | char (c : Char) {rest : Bytes} {cs : List Char} (h : ReadsAs rest cs) :
      ReadsAs (String.utf8EncodeChar c ++ rest) (c :: cs)
  | part {part rest : Bytes} {cs : List Char} (hbreaks : Breaks part rest) (h : ReadsAs rest cs) :
      ReadsAs (part ++ rest) (replacement :: cs)

/-- Bytes begin with one character at most. -/
theorem char_unique {c d : Char} {rest tail : Bytes}
    (h : String.utf8EncodeChar c ++ rest = String.utf8EncodeChar d ++ tail) : c = d := by
  have hfirst : ∀ (e : Char) (more : Bytes),
      ((String.utf8EncodeChar e ++ more).toByteArray).utf8DecodeChar? 0 = some e := by
    intro e more
    rw [List.toByteArray_append]
    exact ByteArray.utf8DecodeChar?_utf8EncodeChar_append
  have hc := hfirst c rest
  rw [h, hfirst d tail] at hc
  exact (Option.some.inj hc).symm

theorem Breaks.ne_nil {part rest : Bytes} (h : Breaks part rest) : part ≠ [] := by
  rintro rfl
  rcases h.begins with hone | ⟨hne, -⟩
  · cases hone
  · exact hne rfl

/-- Of two ill-formed parts of the same bytes neither is longer. -/
private theorem Breaks.length_le {part part' rest rest' : Bytes} (h : Breaks part rest)
    (h' : Breaks part' rest') (heq : part ++ rest = part' ++ rest') :
    part'.length ≤ part.length := by
  by_contra hlt
  have hprefix : part <+: part' := by
    refine List.prefix_of_prefix_length_le (List.prefix_append part rest) ?_ (by omega)
    rw [heq]
    exact List.prefix_append part' rest'
  obtain ⟨more, rfl⟩ := hprefix
  have hpos : 0 < part.length := List.length_pos_iff.mpr h.ne_nil
  cases more with
  | nil => exact hlt (by simp)
  | cons b more =>
    have hrest : rest = b :: (more ++ rest') := by
      rw [List.append_assoc] at heq
      exact List.append_cancel_left heq
    rcases h'.begins with hone | ⟨-, c, tail, hne, hc⟩
    · simp at hone
      omega
    · refine h.ends b _ hrest ⟨c, more ++ tail, by simp [hne], ?_⟩
      rw [hc]
      simp

/-- Bytes read as one text. -/
theorem ReadsAs.unique {bytes : Bytes} {cs ds : List Char} (h : ReadsAs bytes cs)
    (h' : ReadsAs bytes ds) : cs = ds := by
  induction h generalizing ds with
  | done =>
    generalize hbytes : ([] : Bytes) = bytes at h'
    cases h' with
    | done => rfl
    | char c h => simp [String.utf8EncodeChar_ne_nil] at hbytes
    | part hbreaks h => exact absurd (List.append_eq_nil_iff.mp hbytes.symm).1 hbreaks.ne_nil
  | @char c rest cs h ih =>
    generalize hbytes : String.utf8EncodeChar c ++ rest = bytes at h'
    cases h' with
    | done => simp [String.utf8EncodeChar_ne_nil] at hbytes
    | char d hd =>
      obtain rfl := char_unique hbytes
      rw [List.append_cancel_left hbytes] at ih
      rw [ih hd]
    | part hbreaks hd => exact absurd ⟨rest, hbytes⟩ (hbreaks.noChar c)
  | @part part rest cs hbreaks h ih =>
    generalize hbytes : part ++ rest = bytes at h'
    cases h' with
    | done => exact absurd (List.append_eq_nil_iff.mp hbytes).1 hbreaks.ne_nil
    | char d hd => exact absurd ⟨_, hbytes.symm⟩ (hbreaks.noChar d)
    | part hbreaks' hd =>
      have hle := hbreaks.length_le hbreaks' hbytes
      have hge := hbreaks'.length_le hbreaks hbytes.symm
      obtain ⟨rfl, rfl⟩ := List.append_inj hbytes (Nat.le_antisymm hge hle)
      rw [ih hd]

/-! ### Leads and characters -/

/-- What is owed of a character after one more byte of it. -/
def Lead.next (l : Lead) (b : Nat) : Lead := ⟨l.follow - 1, 0x80, 0xBF, l.bits * 64 + (b - 0x80)⟩

/-- Whether bytes make a character of what a lead has begun. -/
def Lead.Completes : Lead → Bytes → Char → Prop
  | _, [], _ => False
  | l, b :: rest, c => (l.low ≤ b.toNat ∧ b.toNat ≤ l.high) ∧
      if l.follow = 1 then rest = [] ∧ c = Char.ofNat (l.next b.toNat).bits
      else (l.next b.toNat).Completes rest c

private theorem toNat_byte {n : Nat} (h : n < 256) : (UInt8.ofNat n).toNat = n := by
  rw [UInt8.toNat_ofNat']
  exact Nat.mod_eq_of_lt h

private theorem byte_eq {n : Nat} {b : UInt8} (h : n = b.toNat) : UInt8.ofNat n = b := by
  rw [h, UInt8.ofNat_toNat]

private theorem toNat_char {n : Nat} (h : n < 0xD800 ∨ (0xDFFF < n ∧ n < 0x110000)) :
    (Char.ofNat n).val.toNat = n := by
  have hvalid : n.isValidChar := h
  rw [Char.ofNat, dif_pos hvalid]
  rfl

/-- The leads of characters of three bytes. -/
private theorem lead?_three {n : Nat} (hlow : 0xE0 ≤ n) (hhigh : n ≤ 0xEF) :
    lead? n =
      some ⟨2, if n = 0xE0 then 0xA0 else 0x80, if n = 0xED then 0x9F else 0xBF, n - 0xE0⟩ := by
  interval_cases n <;> rfl

private theorem lead?_four {n : Nat} (hlow : 0xF0 ≤ n) (hhigh : n ≤ 0xF4) :
    lead? n =
      some ⟨3, if n = 0xF0 then 0x90 else 0x80, if n = 0xF4 then 0x8F else 0xBF, n - 0xF0⟩ := by
  interval_cases n <;> rfl

/-- There are no other leads. -/
private theorem lead?_cases {n : Nat} {l : Lead} (h : lead? n = some l) :
    (0xC2 ≤ n ∧ n ≤ 0xDF) ∨ (0xE0 ≤ n ∧ n ≤ 0xEF) ∨ (0xF0 ≤ n ∧ n ≤ 0xF4) := by
  unfold lead? at h
  split_ifs at h <;> omega

/-- The bytes after the first complete the character. -/
theorem completes_of_encode {c : Char} {b : UInt8} {rest : Bytes}
    (h : String.utf8EncodeChar c = b :: rest) (hb : ¬ b.toNat < 0x80) :
    ∃ l, lead? b.toNat = some l ∧ l.Completes rest c := by
  have hvalid : c.val.toNat < 0xD800 ∨ (0xDFFF < c.val.toNat ∧ c.val.toNat < 0x110000) := c.valid
  have hc : c = Char.ofNat c.val.toNat := (Char.ofNat_toNat c).symm
  rw [String.utf8EncodeChar] at h
  generalize c.val.toNat = v at h hvalid hc
  -- The encoder cuts the number into bytes by its size; in each of the
  -- four cases the lead is known.
  have hlast : v % 64 + 128 < 256 := by omega
  have hmiddle : v / 64 % 64 + 128 < 256 := by omega
  have hsecond : v / 4096 % 64 + 128 < 256 := by omega
  split at h
  · obtain ⟨rfl, rfl⟩ := List.cons.inj h
    rw [toNat_byte (by omega)] at hb
    omega
  · split at h
    · obtain ⟨rfl, rfl⟩ := List.cons.inj h
      rw [toNat_byte (by omega)]
      refine ⟨_, if_pos (by omega), ?_⟩
      simp only [Lead.Completes, Lead.next, toNat_byte hlast]
      rw [if_pos trivial, true_and, hc]
      exact ⟨by omega, congrArg _ (by omega)⟩
    · split at h
      · obtain ⟨rfl, rfl⟩ := List.cons.inj h
        rw [toNat_byte (by omega)]
        refine ⟨_, lead?_three (by omega) (by omega), ?_⟩
        simp only [Lead.Completes, Lead.next, toNat_byte hlast, toNat_byte hmiddle]
        rw [if_pos trivial, true_and, hc]
        refine ⟨?_, by omega, congrArg _ (by omega)⟩
        split <;> split <;> omega
      · obtain ⟨rfl, rfl⟩ := List.cons.inj h
        rw [toNat_byte (by omega)]
        refine ⟨_, lead?_four (by omega) (by omega), ?_⟩
        simp only [Lead.Completes, Lead.next, toNat_byte hlast, toNat_byte hmiddle,
          toNat_byte hsecond]
        rw [if_pos trivial, true_and, hc]
        refine ⟨?_, by omega, by omega, congrArg _ (by omega)⟩
        split <;> split <;> omega

theorem Lead.Completes.last {l : Lead} {tail : Bytes} {c : Char} (h : l.Completes tail c)
    (hl : l.follow = 1) : ∃ b, tail = [b] ∧ (l.low ≤ b.toNat ∧ b.toNat ≤ l.high) ∧
      c = Char.ofNat (l.next b.toNat).bits := by
  cases tail with
  | nil => exact h.elim
  | cons b rest =>
    rw [Completes, if_pos hl] at h
    obtain ⟨hb, rfl, hc⟩ := h
    exact ⟨b, rfl, hb, hc⟩

theorem Lead.Completes.more {l : Lead} {tail : Bytes} {c : Char} (h : l.Completes tail c)
    (hl : l.follow ≠ 1) : ∃ b rest, tail = b :: rest ∧ (l.low ≤ b.toNat ∧ b.toNat ≤ l.high) ∧
      (l.next b.toNat).Completes rest c := by
  cases tail with
  | nil => exact h.elim
  | cons b rest =>
    rw [Completes, if_neg hl] at h
    exact ⟨b, rest, rfl, h⟩

private theorem encode_one {n : Nat} (h : n < 0x80) :
    String.utf8EncodeChar (Char.ofNat n) = [UInt8.ofNat n] := by
  rw [String.utf8EncodeChar, toNat_char (.inl (by omega))]
  exact if_pos (by omega)

private theorem encode_two {n : Nat} (hlow : 0x80 ≤ n) (hhigh : n < 0x800) :
    String.utf8EncodeChar (Char.ofNat n) =
      [UInt8.ofNat (n / 64 % 32 + 192), UInt8.ofNat (n % 64 + 128)] := by
  have hn : ¬ n ≤ 127 := by omega
  have hn' : n ≤ 2047 := by omega
  rw [String.utf8EncodeChar, toNat_char (.inl (by omega)), if_neg hn, if_pos hn']

private theorem encode_three {n : Nat} (hlow : 0x800 ≤ n) (hhigh : n < 0x10000)
    (hvalid : n < 0xD800 ∨ 0xDFFF < n) : String.utf8EncodeChar (Char.ofNat n) =
      [UInt8.ofNat (n / 4096 % 16 + 224), UInt8.ofNat (n / 64 % 64 + 128),
        UInt8.ofNat (n % 64 + 128)] := by
  have hn : ¬ n ≤ 127 := by omega
  have hn' : ¬ n ≤ 2047 := by omega
  have hn'' : n ≤ 65535 := by omega
  rw [String.utf8EncodeChar, toNat_char (by omega), if_neg hn, if_neg hn', if_pos hn'']

private theorem encode_four {n : Nat} (hlow : 0x10000 ≤ n) (hhigh : n < 0x110000) :
    String.utf8EncodeChar (Char.ofNat n) =
      [UInt8.ofNat (n / 262144 % 8 + 240), UInt8.ofNat (n / 4096 % 64 + 128),
        UInt8.ofNat (n / 64 % 64 + 128), UInt8.ofNat (n % 64 + 128)] := by
  have hn : ¬ n ≤ 127 := by omega
  have hn' : ¬ n ≤ 2047 := by omega
  have hn'' : ¬ n ≤ 65535 := by omega
  rw [String.utf8EncodeChar, toNat_char (by omega), if_neg hn, if_neg hn', if_neg hn'']

/-- What completes a lead is the rest of a character. -/
theorem encode_of_completes {b : UInt8} {l : Lead} (hl : lead? b.toNat = some l) {rest : Bytes}
    {c : Char} (h : l.Completes rest c) : String.utf8EncodeChar c = b :: rest := by
  rcases lead?_cases hl with ⟨hlow, hhigh⟩ | ⟨hlow, hhigh⟩ | ⟨hlow, hhigh⟩
  · rw [lead?, if_pos ⟨hlow, hhigh⟩] at hl
    cases hl
    obtain ⟨x, rfl, hx, hc⟩ := h.last rfl
    dsimp only [Lead.next] at hx hc
    rw [hc, encode_two (by omega) (by omega), byte_eq (b := b) (by omega),
      byte_eq (b := x) (by omega)]
  · rw [lead?_three hlow hhigh] at hl
    cases hl
    obtain ⟨x, rest, rfl, hx, h⟩ := h.more (show 2 ≠ 1 by decide)
    obtain ⟨y, rfl, hy, hc⟩ := h.last rfl
    dsimp only [Lead.next] at hx hy hc
    -- The bounds of the second byte keep out numbers that need fewer bytes, and surrogates.
    split at hx <;> split at hx <;>
    rw [hc, encode_three (by omega) (by omega) (by omega), byte_eq (b := b) (by omega),
      byte_eq (b := x) (by omega), byte_eq (b := y) (by omega)]
  · rw [lead?_four hlow hhigh] at hl
    cases hl
    obtain ⟨x, rest, rfl, hx, h⟩ := h.more (show 3 ≠ 1 by decide)
    obtain ⟨y, rest, rfl, hy, h⟩ := h.more (show 3 - 1 ≠ 1 by decide)
    obtain ⟨z, rfl, hz, hc⟩ := h.last rfl
    dsimp only [Lead.next] at hx hy hz hc
    split at hx <;> split at hx <;>
    rw [hc, encode_four (by omega) (by omega), byte_eq (b := b) (by omega),
      byte_eq (b := x) (by omega), byte_eq (b := y) (by omega), byte_eq (b := z) (by omega)]

/-! ### Decoding from inside a character -/

/-- Whether a lead tells what is owed after the bytes of a character that were read. -/
structure Lead.Owes (l : Lead) (begun : Bytes) : Prop where
  completes : ∀ tail c, l.Completes tail c ↔ String.utf8EncodeChar c = begun ++ tail
  ne_nil : begun ≠ []
  /-- There is a character that goes on like this. -/
  pos : 0 < l.follow
  range : l.low ≤ l.high ∧ l.high ≤ 0xBF

private theorem lead?_range {n : Nat} {l : Lead} (h : lead? n = some l) :
    0 < l.follow ∧ l.low ≤ l.high ∧ l.high ≤ 0xBF := by
  unfold lead? at h
  split_ifs at h <;> cases h <;> simp

theorem Lead.owes_lead {b : UInt8} {l : Lead} (h : lead? b.toNat = some l) : l.Owes [b] where
  completes tail c := by
    refine ⟨encode_of_completes h, fun hc => ?_⟩
    have hb : ¬ b.toNat < 0x80 := fun hlt => by
      rcases lead?_cases h with hrange | hrange | hrange <;> omega
    obtain ⟨l', hl', hcompletes⟩ := completes_of_encode hc hb
    rw [h] at hl'
    cases hl'
    exact hcompletes
  ne_nil := List.cons_ne_nil _ _
  pos := (lead?_range h).1
  range := (lead?_range h).2

namespace Lead.Owes

variable {l : Lead} {begun : Bytes}

theorem next (h : l.Owes begun) {b : UInt8} (hb : l.low ≤ b.toNat ∧ b.toNat ≤ l.high)
    (hl : l.follow ≠ 1) : (l.next b.toNat).Owes (begun ++ [b]) where
  completes tail c := by
    have hcons := h.completes (b :: tail) c
    rw [Completes, if_neg hl] at hcons
    rw [List.append_assoc, List.singleton_append, ← hcons]
    exact ⟨fun hc => ⟨hb, hc⟩, And.right⟩
  ne_nil := by simp
  pos := by
    have hpos := h.pos
    show 0 < l.follow - 1
    omega
  range := ⟨(show 0x80 ≤ 0xBF by decide), Nat.le_refl _⟩

theorem last (h : l.Owes begun) {b : UInt8} (hb : l.low ≤ b.toNat ∧ b.toNat ≤ l.high)
    (hl : l.follow = 1) :
    String.utf8EncodeChar (Char.ofNat (l.next b.toNat).bits) = begun ++ [b] := by
  rw [← h.completes]
  rw [Completes, if_pos hl]
  exact ⟨hb, rfl, rfl⟩

/-- What has been begun can be completed. -/
theorem begins (h : l.Owes begun) : Begins begun := by
  obtain ⟨n, hn⟩ : ∃ n, l.follow = n + 1 := ⟨l.follow - 1, by have := h.pos; omega⟩
  induction n generalizing l begun with
  | zero =>
    have hlow : (UInt8.ofNat l.low).toNat = l.low := toNat_byte (by have := h.range; omega)
    exact ⟨_, _, List.cons_ne_nil _ _, h.last (b := UInt8.ofNat l.low)
      (by rw [hlow]; exact ⟨Nat.le_refl _, h.range.1⟩) hn⟩
  | succ n ih =>
    have hlow : (UInt8.ofNat l.low).toNat = l.low := toNat_byte (by have := h.range; omega)
    have hnext := h.next (b := UInt8.ofNat l.low) (by rw [hlow]; exact ⟨Nat.le_refl _, h.range.1⟩)
      (by omega)
    obtain ⟨c, tail, -, hc⟩ := ih hnext (by show l.follow - 1 = n + 1; omega)
    rw [List.append_assoc] at hc
    exact ⟨c, _, List.append_ne_nil_of_left_ne_nil (List.cons_ne_nil _ _) _, hc⟩

/-- What has been begun is ill-formed, and as long as it can be, before a byte that does not go on
with it. -/
theorem breaks (h : l.Owes begun) {rest : Bytes}
    (hrest : ∀ b tail, rest = b :: tail → ¬ (l.low ≤ b.toNat ∧ b.toNat ≤ l.high)) :
    Breaks begun rest where
  noChar c hc := by
    obtain ⟨d, more, hmore, hd⟩ := h.begins
    -- A character in front would be a part of the one that was begun, or complete it.
    rcases List.prefix_or_prefix_of_prefix hc (List.prefix_append begun rest) with hshort | hlong
    · obtain ⟨between, hbetween⟩ := hshort
      have hwhole :
          String.utf8EncodeChar c ++ (between ++ more) = String.utf8EncodeChar d ++ [] := by
        rw [← List.append_assoc, hbetween, hd, List.append_nil]
      have hsame : c = d := char_unique hwhole
      have hlen := congrArg List.length hd
      rw [← hbetween, hsame] at hlen
      have hpos : 0 < more.length := List.length_pos_iff.mpr hmore
      simp only [List.length_append] at hlen
      omega
    · obtain ⟨tail, htail⟩ := hlong
      have hcompletes := (h.completes tail c).mpr htail.symm
      cases tail with
      | nil => exact hcompletes
      | cons b tail =>
        rw [← htail, List.prefix_append_right_inj] at hc
        obtain ⟨more, rfl⟩ := hc
        exact hrest b _ rfl hcompletes.1
  begins := .inr ⟨h.ne_nil, h.begins⟩
  ends b tail heq := by
    rintro ⟨c, more, -, hc⟩
    rw [List.append_assoc, ← h.completes] at hc
    exact hrest b tail heq hc.1

end Lead.Owes

/-- A byte with which no character begins is ill-formed by itself. -/
private theorem breaks_of_no_lead {b : UInt8} (hb : ¬ b.toNat < 0x80) (hl : lead? b.toNat = none)
    (rest : Bytes) : Breaks [b] rest where
  noChar c := by
    rintro ⟨tail, htail⟩
    obtain ⟨x, more, hmore⟩ := List.exists_cons_of_ne_nil (String.utf8EncodeChar_ne_nil (c := c))
    rw [hmore] at htail
    obtain ⟨rfl, -⟩ := List.cons.inj htail
    obtain ⟨l, hl', -⟩ := completes_of_encode hmore hb
    rw [hl] at hl'
    cases hl'
  begins := .inl rfl
  ends x tail _ := by
    rintro ⟨c, more, -, hc⟩
    obtain ⟨l, hl', -⟩ := completes_of_encode hc hb
    rw [hl] at hl'
    cases hl'

/-- Decoding reads the bytes, from the start as from inside a character. -/
private theorem readsAs_lossyFrom (bytes : Bytes) : ReadsAs bytes (lossyFrom none bytes) ∧
    ∀ l begun, l.Owes begun → ReadsAs (begun ++ bytes) (lossyFrom (some l) bytes) := by
  -- A byte that breaks a character off is read afresh, so both readings go through one induction.
  induction bytes with
  | nil =>
    refine ⟨.done, fun l begun h => ?_⟩
    exact .part (h.breaks nofun) .done
  | cons b rest ih =>
    obtain ⟨hnone, hsome⟩ := ih
    have hfresh : ReadsAs (b :: rest) (lossyFrom none (b :: rest)) := by
      rw [lossyFrom]
      split
      · rename_i hb
        have hchar := encode_one hb
        rw [UInt8.ofNat_toNat] at hchar
        have hread := ReadsAs.char (Char.ofNat b.toNat) hnone
        rw [hchar] at hread
        exact hread
      · rename_i hb
        split
        · rename_i l hl
          exact hsome l [b] (Lead.owes_lead hl)
        · rename_i hl
          exact .part (breaks_of_no_lead hb hl rest) hnone
    refine ⟨hfresh, fun l begun h => ?_⟩
    have hcut : begun ++ b :: rest = begun ++ [b] ++ rest := by simp
    rw [lossyFrom]
    split
    · rename_i hb
      split
      · rename_i hl
        have hread := ReadsAs.char (Char.ofNat (l.next b.toNat).bits) hnone
        rw [h.last hb hl, ← hcut] at hread
        exact hread
      · rename_i hl
        rw [hcut]
        exact hsome _ _ (h.next hb hl)
    · rename_i hb
      rw [lossyFrom] at hfresh
      refine .part (h.breaks ?_) hfresh
      rintro x tail heq
      obtain ⟨rfl, -⟩ := List.cons.inj heq
      exact hb

/-- The text of bytes keeps every character, and puts the replacement character for each ill-formed
part; no other text does. -/
theorem readsAs_iff {bytes : Bytes} {s : String} : ReadsAs bytes s.toList ↔ s = lossy bytes := by
  have hread := (readsAs_lossyFrom bytes).1
  constructor
  · intro h
    rw [lossy, hread.unique h, String.ofList_toList]
  · rintro rfl
    rw [lossy, String.toList_ofList]
    exact hread

end Roaming.Text
