import Roaming.Json.Printer
import Roaming.Json.TextLiteral

/-!
# Texts are read back

A text is escaped character by character. Each character comes out as one escape or as its
own bytes, none of which means anything to the reader, and the reader turns both into the
bytes of the character.
-/

set_option autoImplicit false
set_option relaxedAutoImplicit false

namespace Roaming.Text

@[simp] theorem utf8_append (s t : String) : utf8 (s ++ t) = utf8 s ++ utf8 t := by
  simp [utf8]

@[simp] theorem utf8_ofList (cs : List Char) :
    utf8 (String.ofList cs) = cs.flatMap String.utf8EncodeChar := by
  simp [utf8]

/-- The bytes of a text are those that the text is kept in. -/
theorem ofUtf8?_utf8 (s : String) : ofUtf8? (utf8 s) = some s := by
  have hbytes : ByteArray.mk (utf8 s).toArray = s.toByteArray := by
    rw [← String.utf8Encode_toList, List.utf8Encode, utf8]
    apply ByteArray.ext
    simp
  have hvalid : (ByteArray.mk (utf8 s).toArray).IsValidUTF8 := by
    rw [hbytes]
    exact s.isValidUTF8
  rw [ofUtf8?, String.fromUTF8?, dif_pos hvalid]
  exact congrArg some (String.toByteArray_inj.mp hbytes)

end Roaming.Text

namespace Roaming.Json

open Roaming.Text

/-- A text as it stands between its quotes. -/
def escaped (s : String) : Bytes :=
  (s.toList.flatMap escapeChar).flatMap String.utf8EncodeChar

theorem utf8_printText (s : String) : utf8 (printText s) = 34 :: (escaped s ++ [34]) := by
  have hquote : utf8 "\"" = [34] := by decide +kernel
  simp only [printText, utf8_append, utf8_ofList, hquote, List.cons_append, List.nil_append]
  rfl

/-- Whether a byte stands for itself inside a text literal. -/
def IsPlain (b : UInt8) : Prop := b ≠ 34 ∧ b ≠ 92 ∧ ¬ b < 32

/-- How a character is written so that it is read back: by an escape, or as it is. -/
inductive Escapes (c : Char) : Prop where
  | escape (e : Bytes) (hc : (escapeChar c).flatMap String.utf8EncodeChar = 92 :: e)
      (hread : ∀ rest, readEscape (e ++ rest) = .ok (String.utf8EncodeChar c, rest))
  | plain (hc : (escapeChar c).flatMap String.utf8EncodeChar = String.utf8EncodeChar c)
      (hplain : ∀ b ∈ String.utf8EncodeChar c, IsPlain b)

private theorem isPlain_ofNat {n : Nat} (hn : n < 256) (hquote : n ≠ 34) (hslash : n ≠ 92)
    (hcontrol : 32 ≤ n) : IsPlain (UInt8.ofNat n) := by
  have hval : (UInt8.ofNat n).toNat = n := by simp only [UInt8.toNat_ofNat']; omega
  refine ⟨fun h => ?_, fun h => ?_, fun h => ?_⟩
  · exact hquote (hval.symm.trans (congrArg UInt8.toNat h))
  · exact hslash (hval.symm.trans (congrArg UInt8.toNat h))
  · have hlt : n < 32 := hval ▸ UInt8.lt_iff_toNat_lt.mp h
    omega

/-- The bytes of longer characters are all 128 or more. -/
private theorem plain_utf8EncodeChar {c : Char} (hquote : c.toNat ≠ 34) (hslash : c.toNat ≠ 92)
    (hcontrol : 32 ≤ c.toNat) : ∀ b ∈ String.utf8EncodeChar c, IsPlain b := by
  have hv : c.val.toNat = c.toNat := rfl
  intro b hb
  simp only [String.utf8EncodeChar, hv] at hb
  split at hb
  · obtain rfl := List.mem_singleton.mp hb
    exact isPlain_ofNat (by omega) hquote hslash hcontrol
  split at hb
  · simp only [List.mem_cons, List.not_mem_nil, or_false] at hb
    rcases hb with rfl | rfl <;> exact isPlain_ofNat (by omega) (by omega) (by omega) (by omega)
  split at hb
  · simp only [List.mem_cons, List.not_mem_nil, or_false] at hb
    rcases hb with rfl | rfl | rfl <;>
      exact isPlain_ofNat (by omega) (by omega) (by omega) (by omega)
  · simp only [List.mem_cons, List.not_mem_nil, or_false] at hb
    rcases hb with rfl | rfl | rfl | rfl <;>
      exact isPlain_ofNat (by omega) (by omega) (by omega) (by omega)

private theorem hexValue?_hexDigit : ∀ n < 16, ∃ b, String.utf8EncodeChar (hexDigit n) = [b] ∧
    hexValue? b = some n := by
  intro n hn
  have h : ∀ n : Fin 16, String.utf8EncodeChar (hexDigit n) = [UInt8.ofNat (hexDigit n).toNat] ∧
      hexValue? (UInt8.ofNat (hexDigit n).toNat) = some n.val := by
    decide +kernel
  exact ⟨_, h ⟨n, hn⟩⟩

/-- A control is written by its number, in four digits of which two are zeros. -/
private theorem escapes_by_number {c : Char} (hc : c.toNat < 32)
    (h : escapeChar c = ['\\', 'u', '0', '0', hexDigit (c.toNat / 16), hexDigit (c.toNat % 16)]) :
    Escapes c := by
  obtain ⟨high, hhigh, hhigh'⟩ := hexValue?_hexDigit (c.toNat / 16) (by omega)
  obtain ⟨low, hlow, hlow'⟩ := hexValue?_hexDigit (c.toNat % 16) (by omega)
  have hfront : ['\\', 'u', '0', '0'].flatMap String.utf8EncodeChar = [92, 117, 48, 48] := by
    decide +kernel
  refine .escape (117 :: 48 :: 48 :: [high, low]) ?_ fun rest => ?_
  · rw [h]
    have hdigits : [hexDigit (c.toNat / 16), hexDigit (c.toNat % 16)].flatMap
        String.utf8EncodeChar = [high, low] := by
      simp only [List.flatMap_cons, List.flatMap_nil, hhigh, hlow, List.append_nil]
      rfl
    calc (['\\', 'u', '0', '0'] ++ [hexDigit (c.toNat / 16), hexDigit (c.toNat % 16)]).flatMap
          String.utf8EncodeChar
        = [92, 117, 48, 48] ++ [high, low] := by rw [List.flatMap_append, hfront, hdigits]
      _ = 92 :: 117 :: 48 :: 48 :: [high, low] := rfl
  · have hzero : hexValue? 48 = some 0 := by decide
    have hnumber : ((0 * 16 + 0) * 16 + c.toNat / 16) * 16 + c.toNat % 16 = c.toNat := by omega
    have hhex : readHex4 (48 :: 48 :: high :: low :: rest) = .ok (c.toNat, rest) := by
      simp only [readHex4, hzero, hhigh', hlow', hnumber]
    change readNumberedEscape (48 :: 48 :: high :: low :: rest) = _
    have hlone : ¬ (0xDC00 ≤ c.toNat ∧ c.toNat ≤ 0xDFFF) := by omega
    have hfirst : ¬ (0xD800 ≤ c.toNat ∧ c.toNat ≤ 0xDBFF) := by omega
    simp [readNumberedEscape, hhex, hlone, hfirst, bind, Except.bind, pure, Except.pure]

theorem escapes (c : Char) : Escapes c := by
  by_cases hquote : c = '"'
  · exact hquote ▸ .escape [34] (by decide +kernel) fun rest => rfl
  by_cases hslash : c = '\\'
  · exact hslash ▸ .escape [92] (by decide +kernel) fun rest => rfl
  by_cases hfeed : c = '\n'
  · exact hfeed ▸ .escape [110] (by decide +kernel) fun rest => rfl
  by_cases hreturn : c = '\r'
  · exact hreturn ▸ .escape [114] (by decide +kernel) fun rest => rfl
  by_cases htab : c = '\t'
  · exact htab ▸ .escape [116] (by decide +kernel) fun rest => rfl
  by_cases hback : c.toNat = 8
  · obtain rfl : c = Char.ofNat 8 := by rw [← hback, Char.ofNat_toNat]
    exact .escape [98] (by decide +kernel) fun rest => rfl
  by_cases hform : c.toNat = 12
  · obtain rfl : c = Char.ofNat 12 := by rw [← hform, Char.ofNat_toNat]
    exact .escape [102] (by decide +kernel) fun rest => rfl
  by_cases hcontrol : c.toNat < 32
  · refine escapes_by_number hcontrol ?_
    simp only [escapeChar, if_neg hquote, if_neg hslash, if_neg hfeed, if_neg hreturn, if_neg htab,
      if_neg hback, if_neg hform, if_pos hcontrol]
  · refine .plain ?_ (plain_utf8EncodeChar ?_ ?_ (by omega))
    · simp only [escapeChar, if_neg hquote, if_neg hslash, if_neg hfeed, if_neg hreturn,
        if_neg htab, if_neg hback, if_neg hform, if_neg hcontrol, List.flatMap_cons,
        List.flatMap_nil, List.append_nil]
    · exact fun h => hquote (by rw [← Char.ofNat_toNat c, h])
    · exact fun h => hslash (by rw [← Char.ofNat_toNat c, h])

private theorem readTextBytes_plain {bytes : Bytes} (h : ∀ b ∈ bytes, IsPlain b) (fuel : Nat)
    (taken rest : Bytes) :
    readTextBytes (bytes.length + fuel) taken (bytes ++ rest) =
      readTextBytes fuel (bytes.reverse ++ taken) rest := by
  induction bytes generalizing taken with
  | nil => simp
  | cons b bytes ih =>
    obtain ⟨hquote, hslash, hcontrol⟩ := h b List.mem_cons_self
    have hfuel : (b :: bytes).length + fuel = bytes.length + fuel + 1 := by
      simp only [List.length_cons]; omega
    rw [hfuel, List.cons_append, readTextBytes, if_neg hquote, if_neg hslash, if_neg hcontrol,
      ih fun b' hb' => h b' (List.mem_cons_of_mem _ hb')]
    simp

private theorem readTextBytes_escape {e c : Bytes} {rest : Bytes}
    (h : readEscape (e ++ rest) = .ok (c, rest)) (fuel : Nat) (taken : Bytes) :
    readTextBytes (fuel + 1) taken (92 :: e ++ rest) =
      readTextBytes fuel (c.reverse ++ taken) rest := by
  have hquote : (92 : UInt8) ≠ 34 := by decide
  rw [List.cons_append, readTextBytes, if_neg hquote, if_pos rfl, h]

/-- The induction is on the characters; what was read of those before stands in `taken`. -/
private theorem readTextBytes_escaped (cs : List Char) (fuel : Nat) (taken rest : Bytes)
    (hfuel : ((cs.flatMap escapeChar).flatMap String.utf8EncodeChar).length < fuel) :
    readTextBytes fuel taken
        ((cs.flatMap escapeChar).flatMap String.utf8EncodeChar ++ 34 :: rest) =
      .ok (taken.reverse ++ cs.flatMap String.utf8EncodeChar, rest) := by
  induction cs generalizing fuel taken with
  | nil =>
    obtain ⟨fuel, rfl⟩ := Nat.exists_eq_add_of_lt hfuel
    simp [readTextBytes]
  | cons c cs ih =>
    simp only [List.flatMap_cons, List.flatMap_append, List.length_append, List.append_assoc]
      at hfuel ⊢
    cases escapes c with
    | escape e hc hread =>
      rw [hc] at hfuel ⊢
      rw [List.length_cons] at hfuel
      obtain ⟨fuel, rfl⟩ : ∃ f, fuel = f + 1 := ⟨fuel - 1, by omega⟩
      rw [readTextBytes_escape (hread _), ih _ _ (by omega)]
      simp
    | plain hc hplain =>
      rw [hc] at hfuel ⊢
      obtain ⟨fuel, rfl⟩ : ∃ f, fuel = (String.utf8EncodeChar c).length + f :=
        ⟨fuel - (String.utf8EncodeChar c).length, by omega⟩
      rw [readTextBytes_plain hplain, ih _ _ (by omega)]
      simp

/-- A text is read back from behind its opening quote. -/
theorem readText_escaped (s : String) (rest : Bytes) :
    readText (escaped s ++ 34 :: rest) = .ok (s, rest) := by
  have hbytes : readTextBytes ((escaped s ++ 34 :: rest).length + 1) [] (escaped s ++ 34 :: rest) =
      .ok (utf8 s, rest) := by
    refine readTextBytes_escaped s.toList _ [] rest ?_
    simp only [escaped, List.length_append]
    omega
  rw [readText, hbytes]
  simp only [bind, Except.bind, ofUtf8?_utf8]
  rfl

end Roaming.Json
