import AgentMarkup.Json.Reader
import AgentMarkup.Proofs.Machine.Path
import Mathlib.Data.Nat.Digits.Defs

/-!
Which changes a checksum shows. Shifting bits out of the register is linear in exclusive or and
loses no difference (`shiftBits_xor`, `shiftBits_injective`), so registers that differ differ after
any further bytes. Up to four bytes are taken as one word is (`foldl_addByte_eq`), and a word fits
into the register whole, so neither does a change within four bytes in a row get lost
(`crc32c_ne_of_differsWithin`). The eight digits are read back as the register that they stand for.
Main statement: `checksum_separates`.
-/

set_option autoImplicit false
set_option relaxedAutoImplicit false

namespace AgentMarkup

namespace Checksum

/-! ### The register -/

/-- What shifting a bit out of the register puts back into it. -/
def feedback (register : UInt32) : UInt32 :=
  if register.toNat % 2 = 1 then polynomial else 0

theorem and_one_eq_one_iff (register : UInt32) :
    register &&& 1 = 1 ↔ register.toNat % 2 = 1 := by
  rw [← UInt32.toNat_inj, UInt32.toNat_and, ← Nat.and_one_is_mod]
  rfl

theorem shiftBit_eq (register : UInt32) :
    shiftBit register = (register >>> 1) ^^^ feedback register := by
  rw [shiftBit, feedback]
  by_cases h : register.toNat % 2 = 1
  · rw [if_pos h, if_pos ((and_one_eq_one_iff register).mpr h)]
  · rw [if_neg h, if_neg (mt (and_one_eq_one_iff register).mp h), UInt32.xor_zero]

theorem feedback_xor (a b : UInt32) : feedback (a ^^^ b) = feedback a ^^^ feedback b := by
  simp only [feedback, UInt32.toNat_xor, Nat.xor_mod_two_eq_one]
  by_cases ha : a.toNat % 2 = 1 <;> by_cases hb : b.toNat % 2 = 1 <;> simp [ha, hb]

theorem shiftBit_xor (a b : UInt32) : shiftBit (a ^^^ b) = shiftBit a ^^^ shiftBit b := by
  rw [shiftBit_eq, shiftBit_eq, shiftBit_eq, UInt32.shiftRight_xor, feedback_xor]
  ac_rfl

theorem toNat_shiftRight_one (register : UInt32) : (register >>> 1).toNat = register.toNat / 2 :=
  UInt32.toNat_shiftRight register 1

/-- The polynomial has the highest bit, so what it is put into does not vanish. -/
theorem eq_zero_of_shiftBit_eq_zero {register : UInt32} (h : shiftBit register = 0) :
    register = 0 := by
  rw [shiftBit_eq, UInt32.xor_eq_zero_iff] at h
  have hhalf := congrArg UInt32.toNat h
  rw [toNat_shiftRight_one, feedback] at hhalf
  split_ifs at hhalf with hodd
  · have hsize := register.toNat_lt
    have hpolynomial : polynomial.toNat = 0x82f63b78 := rfl
    omega
  · apply UInt32.toNat_inj.mp
    rw [UInt32.toNat_zero] at hhalf ⊢
    omega

theorem shiftBits_xor (count : Nat) (a b : UInt32) :
    shiftBits count (a ^^^ b) = shiftBits count a ^^^ shiftBits count b := by
  induction count generalizing a b with
  | zero => rfl
  | succ count ih => rw [shiftBits, shiftBit_xor, ih, shiftBits, shiftBits]

theorem eq_zero_of_shiftBits_eq_zero {count : Nat} {register : UInt32}
    (h : shiftBits count register = 0) : register = 0 := by
  induction count generalizing register with
  | zero => exact h
  | succ count ih => exact eq_zero_of_shiftBit_eq_zero (ih h)

/-- Shifting loses no difference. -/
theorem shiftBits_injective (count : Nat) : Function.Injective (shiftBits count) := by
  intro a b h
  rw [← UInt32.xor_eq_zero_iff, ← shiftBits_xor] at h
  exact UInt32.xor_eq_zero_iff.mp (eq_zero_of_shiftBits_eq_zero h)

theorem shiftBits_add (first second : Nat) (register : UInt32) :
    shiftBits (first + second) register = shiftBits second (shiftBits first register) := by
  induction first generalizing register with
  | zero => rw [Nat.zero_add, shiftBits]
  | succ first ih => rw [Nat.succ_add, shiftBits, shiftBits, ih]

/-- Zeros are shifted out without a trace. -/
theorem toNat_shiftBits_of_dvd {count : Nat} {register : UInt32}
    (h : 2 ^ count ∣ register.toNat) :
    (shiftBits count register).toNat = register.toNat / 2 ^ count := by
  induction count generalizing register with
  | zero => simp [shiftBits]
  | succ count ih =>
    obtain ⟨rest, hrest⟩ := h
    have heven : register.toNat = 2 * (2 ^ count * rest) := by rw [hrest, Nat.pow_succ]; ring
    have hbit : shiftBit register = register >>> 1 := by
      rw [shiftBit_eq, feedback, if_neg (by omega), UInt32.xor_zero]
    have hhalf : (shiftBit register).toNat = 2 ^ count * rest := by
      rw [hbit, toNat_shiftRight_one, heven, Nat.mul_div_cancel_left _ (by decide)]
    rw [shiftBits, ih (hhalf ▸ Nat.dvd_mul_right _ _), hhalf, hrest,
      Nat.mul_div_cancel_left _ (by positivity), Nat.mul_div_cancel_left _ (by positivity)]

/-! ### Bytes -/

/-- Up to four bytes as one word, the first byte at the low end. -/
def word (bytes : List UInt8) : UInt32 :=
  .ofNat (Nat.ofDigits 256 (bytes.map UInt8.toNat))

theorem forall_mem_map_toNat_lt (bytes : List UInt8) : ∀ n ∈ bytes.map UInt8.toNat, n < 256 :=
  List.forall_mem_map.mpr fun byte _ ↦ byte.toNat_lt

theorem ofDigits_lt (bytes : List UInt8) :
    Nat.ofDigits 256 (bytes.map UInt8.toNat) < 256 ^ bytes.length := by
  have hbound := Nat.ofDigits_lt_base_pow_length (by decide) (forall_mem_map_toNat_lt bytes)
  rwa [List.length_map] at hbound

theorem toNat_word {bytes : List UInt8} (h : bytes.length ≤ 4) :
    (word bytes).toNat = Nat.ofDigits 256 (bytes.map UInt8.toNat) := by
  refine UInt32.toNat_ofNat_of_lt' (Nat.lt_of_lt_of_le (ofDigits_lt bytes) ?_)
  exact Nat.pow_le_pow_right (by decide) h

theorem word_inj {xs ys : List UInt8} (hlength : xs.length = ys.length) (hxs : xs.length ≤ 4)
    (h : word xs = word ys) : xs = ys := by
  have hdigits := congrArg UInt32.toNat h
  rw [toNat_word hxs, toNat_word (hlength ▸ hxs)] at hdigits
  have hbytes := Nat.ofDigits_inj_of_len_eq (by decide) (by simpa using hlength)
    (forall_mem_map_toNat_lt xs) (forall_mem_map_toNat_lt ys) hdigits
  exact List.map_injective_iff.mpr (fun _ _ ↦ UInt8.toNat_inj.mp) hbytes

/-- Numbers without a bit in common add up. -/
theorem xor_two_pow_mul {count low : Nat} (h : low < 2 ^ count) (high : Nat) :
    low ^^^ 2 ^ count * high = low + 2 ^ count * high := by
  refine Nat.eq_of_testBit_eq fun i ↦ ?_
  rw [Nat.testBit_xor, Nat.add_comm, Nat.testBit_two_pow_mul_add high h, Nat.testBit_two_pow_mul]
  split_ifs with hi
  · simp [Nat.not_le.mpr hi]
  · have hlow : low.testBit i = false :=
      Nat.testBit_lt_two_pow (Nat.lt_of_lt_of_le h (Nat.pow_le_pow_right (by decide) (by omega)))
    simp [hlow, Nat.not_lt.mp hi]

/-- The bytes after the first one wait while it is shifted out. -/
theorem word_cons {byte : UInt8} {bytes : List UInt8} (h : bytes.length < 4) :
    ∃ waiting, word (byte :: bytes) = byte.toUInt32 ^^^ waiting ∧
      shiftBits 8 waiting = word bytes := by
  have hrest := ofDigits_lt bytes
  have hsize : 256 ^ bytes.length ≤ 256 ^ 3 := Nat.pow_le_pow_right (by decide) (by omega)
  have hwhole : (word (byte :: bytes)).toNat =
      Nat.ofDigits 256 ((byte :: bytes).map UInt8.toNat) := toNat_word h
  have hword : (word bytes).toNat = Nat.ofDigits 256 (bytes.map UInt8.toNat) :=
    toNat_word (Nat.le_of_lt h)
  rw [List.map_cons, Nat.ofDigits_cons] at hwhole
  generalize Nat.ofDigits 256 (bytes.map UInt8.toNat) = rest at *
  have hwaiting : (UInt32.ofNat (2 ^ 8 * rest)).toNat = 2 ^ 8 * rest :=
    UInt32.toNat_ofNat_of_lt' (by simp [UInt32.size]; omega)
  refine ⟨.ofNat (2 ^ 8 * rest), ?_, ?_⟩
  · apply UInt32.toNat_inj.mp
    rw [UInt32.toNat_xor, UInt8.toNat_toUInt32, hwaiting, hwhole, xor_two_pow_mul byte.toNat_lt]
    rfl
  · apply UInt32.toNat_inj.mp
    rw [toNat_shiftBits_of_dvd (by rw [hwaiting]; exact Nat.dvd_mul_right _ _), hwaiting, hword,
      Nat.mul_div_cancel_left _ (by decide)]

/-- The register takes up to four bytes as it takes their word. -/
theorem foldl_addByte_eq {bytes : List UInt8} (h : bytes.length ≤ 4) (register : UInt32) :
    bytes.foldl addByte register = shiftBits (8 * bytes.length) (register ^^^ word bytes) := by
  induction bytes generalizing register with
  | nil => rw [List.foldl_nil, List.length_nil, Nat.mul_zero, shiftBits, word]; simp
  | cons byte bytes ih =>
    obtain ⟨waiting, hword, hwaiting⟩ : ∃ waiting,
      word (byte :: bytes) = byte.toUInt32 ^^^ waiting ∧ shiftBits 8 waiting = word bytes :=
      word_cons h
    rw [List.foldl_cons, ih (Nat.le_of_succ_le h), addByte, ← hwaiting, ← shiftBits_xor,
      List.length_cons, Nat.mul_succ, Nat.add_comm, shiftBits_add, hword, UInt32.xor_assoc]

theorem foldl_addByte_injective (bytes : List UInt8) :
    Function.Injective fun register ↦ bytes.foldl addByte register := by
  induction bytes with
  | nil => exact Function.injective_id
  | cons byte bytes ih =>
    intro a b h
    exact (UInt32.xor_left_inj byte.toUInt32).mp (shiftBits_injective 8 (ih h))

/-! ### Texts of bytes -/

/-- Whether texts of equally many bytes differ, and do so nowhere outside a window of this width. -/
structure DiffersWithin (width : Nat) (xs ys : List UInt8) : Prop where
  length_eq : xs.length = ys.length
  ne : xs ≠ ys
  window : ∃ start, ∀ i < xs.length, xs[i]? ≠ ys[i]? → start ≤ i ∧ i < start + width

theorem DiffersWithin.exists_window {width : Nat} {xs ys : List UInt8}
    (h : DiffersWithin width xs ys) : ∃ front mine other back,
      xs = front ++ (mine ++ back) ∧ ys = front ++ (other ++ back) ∧
        mine.length = other.length ∧ mine.length ≤ width ∧ mine ≠ other := by
  obtain ⟨hlength, hne, start, hwindow⟩ := h
  have houtside (i : Nat) (hi : ¬ (start ≤ i ∧ i < start + width)) : xs[i]? = ys[i]? := by
    by_cases hin : i < xs.length
    · exact not_not.mp (mt (hwindow i hin) hi)
    · rw [List.getElem?_eq_none (by omega), List.getElem?_eq_none (by omega)]
  have hfront : xs.take start = ys.take start := by
    refine List.ext_getElem? fun i ↦ ?_
    rw [List.getElem?_take, List.getElem?_take]
    split_ifs with hi
    · exact houtside i (by omega)
    · rfl
  have hback : (xs.drop start).drop width = (ys.drop start).drop width := by
    refine List.ext_getElem? fun i ↦ ?_
    simp only [List.getElem?_drop]
    exact houtside _ (by omega)
  have hxs : xs.take start ++ ((xs.drop start).take width ++ (xs.drop start).drop width) = xs := by
    rw [List.take_append_drop, List.take_append_drop]
  have hys : ys.take start ++ ((ys.drop start).take width ++ (ys.drop start).drop width) = ys := by
    rw [List.take_append_drop, List.take_append_drop]
  refine ⟨xs.take start, (xs.drop start).take width, (ys.drop start).take width,
    (xs.drop start).drop width, hxs.symm, ?_, by simp [hlength], by simp, fun heq ↦ hne ?_⟩
  · rw [hfront, hback, hys]
  · rw [← hxs, ← hys, hfront, heq, hback]

/-- No burst of up to four bytes passes the check. -/
theorem crc32c_ne_of_differsWithin {xs ys : List UInt8} (h : DiffersWithin 4 xs ys) :
    crc32c xs ≠ crc32c ys := by
  obtain ⟨front, mine, other, back, rfl, rfl, hlength, hwidth, hne⟩ := h.exists_window
  intro heq
  rw [crc32c, crc32c, UInt32.xor_left_inj] at heq
  simp only [List.foldl_append] at heq
  have hwindow := foldl_addByte_injective back heq
  have hother : other.length ≤ 4 := hlength ▸ hwidth
  rw [foldl_addByte_eq hwidth, foldl_addByte_eq hother, hlength] at hwindow
  have hword := (UInt32.xor_right_inj _).mp (shiftBits_injective _ hwindow)
  exact hne (word_inj hlength hwidth hword)

/-! ### Digits -/

open Json (hexDigit? readHex)

theorem hexDigit?_digitChar : ∀ digit < 16, hexDigit? digit.digitChar = some digit := by decide

theorem readHex_append {value next : Nat} {cs : List Char}
    (h : readHex cs.length value cs = some (next, [])) (more : Nat) (tail : List Char) :
    readHex (cs.length + more) value (cs ++ tail) = readHex more next tail := by
  induction cs generalizing value with
  | nil =>
    obtain ⟨rfl, -⟩ := Prod.mk.inj (Option.some.inj h)
    rw [List.length_nil, Nat.zero_add, List.nil_append]
  | cons c cs ih =>
    rw [List.length_cons, readHex] at h
    obtain ⟨digit, hdigit, hrest⟩ := Option.bind_eq_some_iff.mp h
    rw [List.length_cons, Nat.succ_add, List.cons_append, readHex, hdigit]
    exact ih hrest

theorem readHex_digitChar {digit : Nat} (h : digit < 16) (value : Nat) :
    readHex 1 value [digit.digitChar] = some (16 * value + digit, []) := by
  rw [readHex, hexDigit?_digitChar digit h]
  rfl

theorem readHex_toDigits (n : Nat) :
    readHex (Nat.toDigits 16 n).length 0 (Nat.toDigits 16 n) = some (n, []) := by
  induction n using Nat.strong_induction_on with
  | _ n ih =>
    rw [Nat.toDigits_eq_if (by decide)]
    split_ifs with h
    · rw [List.length_singleton, readHex_digitChar h, Nat.mul_zero, Nat.zero_add]
    · have hfront := ih (n / 16) (Nat.div_lt_self (by omega) (by decide))
      rw [List.length_append, readHex_append hfront, List.length_singleton,
        readHex_digitChar (Nat.mod_lt n (by decide)), Nat.div_add_mod]

theorem readHex_zeros (count : Nat) :
    readHex (List.replicate count '0').length 0 (List.replicate count '0') = some (0, []) := by
  induction count with
  | zero => rfl
  | succ count ih => exact ih

/-- The digits of a word are read back as the word, and are all that there is. -/
theorem readHex_hexDigits (w : UInt32) :
    readHex 8 0 (hexDigits w).toList = some (w.toNat, []) := by
  have hwidth : (Nat.toDigits 16 w.toNat).length ≤ 8 :=
    (Nat.length_toDigits_le_iff (by decide) (by decide)).mpr w.toNat_lt
  have hcount : (List.replicate (8 - (Nat.toDigits 16 w.toNat).length) '0').length +
      (Nat.toDigits 16 w.toNat).length = 8 := by
    rw [List.length_replicate]
    omega
  have hread := readHex_append (readHex_zeros (8 - (Nat.toDigits 16 w.toNat).length))
    (Nat.toDigits 16 w.toNat).length (Nat.toDigits 16 w.toNat)
  rw [hcount, readHex_toDigits] at hread
  rw [hexDigits, String.toList_ofList]
  exact hread

/-- The check value that goes with this polynomial. -/
example : hexDigits (crc32c "123456789".toUTF8.toList) = "e3069283" := by decide +kernel

theorem hexDigits_injective : Function.Injective hexDigits := by
  intro a b h
  have hread := readHex_hexDigits a
  rw [h, readHex_hexDigits, Option.some.injEq, Prod.mk.injEq] at hread
  exact UInt32.toNat_inj.mp hread.1.symm

end Checksum

namespace Machine

open Checksum

theorem Config.Admitted.checksum_eq {c : Config} (h : c.Admitted) :
    c.checksum = c.definition.checksum := by
  obtain ⟨-, hmade⟩ := Config.ofDefinition_eq_ok_iff.mp h.remade
  rw [hmade]
  rfl

theorem checksum_ne_of_differsWithin {a b : Definition}
    (h : DiffersWithin 4 a.canonical.toUTF8.toList b.canonical.toUTF8.toList) :
    a.checksum ≠ b.checksum :=
  hexDigits_injective.ne (crc32c_ne_of_differsWithin h)

/-- Definitions whose canonical forms have equally many bytes and differ within a window of four
bytes only have different checksums, under whatever names, and so have the configurations that
machines are started with. Equal definitions have equal checksums, whatever their names. -/
theorem checksum_separates :
    (∀ a b : Definition, DiffersWithin 4 a.canonical.toUTF8.toList b.canonical.toUTF8.toList →
      ∀ name other, (Config.ofClosed name a).checksum ≠ (Config.ofClosed other b).checksum) ∧
    (∀ a b : Definition, a = b →
      ∀ name other, (Config.ofClosed name a).checksum = (Config.ofClosed other b).checksum) ∧
    ∀ c c' : Config, c.Admitted → c'.Admitted →
      (DiffersWithin 4 c.definition.canonical.toUTF8.toList
        c'.definition.canonical.toUTF8.toList → c.checksum ≠ c'.checksum) ∧
      (c.definition = c'.definition → c.checksum = c'.checksum) := by
  refine ⟨fun a b h name other ↦ checksum_ne_of_differsWithin h, ?_, fun c c' hc hc' ↦ ⟨?_, ?_⟩⟩
  · rintro a b rfl name other
    rfl
  · intro h
    rw [hc.checksum_eq, hc'.checksum_eq]
    exact checksum_ne_of_differsWithin h
  · intro h
    rw [hc.checksum_eq, hc'.checksum_eq, h]

/-- Two configurations that differ in the initial state only, and so in the four bytes of its
name. -/
theorem checksum_separates_initial :
    let d (initial : String) : Definition := ⟨initial, ["abcd", "dcba"], .empty⟩
    DiffersWithin 4 (d "abcd").canonical.toUTF8.toList (d "dcba").canonical.toUTF8.toList ∧
      (Config.ofClosed "one" (d "abcd")).checksum ≠ (Config.ofClosed "other" (d "dcba")).checksum ∧
      (Config.ofClosed "one" (d "abcd")).Admitted ∧
      (Config.ofClosed "other" (d "abcd")).Admitted ∧
      (Config.ofClosed "one" (d "abcd")).checksum =
        (Config.ofClosed "other" (d "abcd")).checksum := by
  intro d
  have hdiffer : DiffersWithin 4 (d "abcd").canonical.toUTF8.toList
      (d "dcba").canonical.toUTF8.toList :=
    ⟨by decide +kernel, by decide +kernel, 2, by decide +kernel⟩
  have hclosed : (d "abcd").Closed := Definition.fault?_eq_none_iff.mp (by decide +kernel)
  have hadmitted (name : String) : (Config.ofClosed name (d "abcd")).Admitted :=
    .ofDefinition (Config.ofDefinition_eq_ok_iff.mpr ⟨hclosed, rfl⟩)
  obtain ⟨hseparates, -, hagrees⟩ := checksum_separates
  exact ⟨hdiffer, hseparates _ _ hdiffer _ _, hadmitted _, hadmitted _,
    (hagrees _ _ (hadmitted _) (hadmitted _)).2 rfl⟩

end Machine

end AgentMarkup
