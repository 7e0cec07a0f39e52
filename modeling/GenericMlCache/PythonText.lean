import Mathlib.Data.UInt
import Mathlib.Data.List.Basic

/-!
# Python text and bytes

A Python `str` is a sequence of code points, lone surrogates included, so its
UTF-8 encoding may fail. Bytes are lists of octets. The strict UTF-8 check is
the one `bytes.decode("utf-8")` applies: no overlong form, no surrogate,
nothing above U+10FFFF.
-/

namespace GenericMlCache.PythonText

/-- A Python string: its code points, in order. -/
abbrev PyStr := List (Fin 0x110000)

/-- A Python `bytes` value. -/
abbrev Bytes := List UInt8

/-- There are code points. -/
instance neZeroUnits : NeZero 0x110000 := ⟨by decide⟩

/-- Code points are compared as they are equal. -/
instance lawfulUnit : LawfulBEq (Fin 0x110000) := inferInstance

/-- So are texts. -/
instance lawfulText : @LawfulBEq PyStr List.instBEq := inferInstance

/-- Code points of a literal. -/
def pyStr (s : String) : PyStr :=
  s.toList.map fun c => ⟨c.toNat,by
    have h := c.valid
    simp only [UInt32.isValidChar,Nat.isValidChar] at h
    simp only [Char.toNat]
    omega⟩

/-- Lone surrogates are code points of a `str` that UTF-8 cannot encode. -/
def isSurrogate (c : Fin 0x110000) : Bool := 0xD800 ≤ c.val && c.val ≤ 0xDFFF

/-- The UTF-8 form of one code point. -/
def encodeCodePoint (c : Fin 0x110000) : Bytes :=
  let n := c.val
  if n < 0x80 then [UInt8.ofNat n]
  else if n < 0x800 then [UInt8.ofNat (0xC0+n/64),UInt8.ofNat (0x80+n%64)]
  else if n < 0x10000 then
    [UInt8.ofNat (0xE0+n/4096),UInt8.ofNat (0x80+n/64%64),UInt8.ofNat (0x80+n%64)]
  else [UInt8.ofNat (0xF0+n/262144),UInt8.ofNat (0x80+n/4096%64),
    UInt8.ofNat (0x80+n/64%64),UInt8.ofNat (0x80+n%64)]

/-- Whether `str.encode("utf-8")` succeeds. SQLite parameters need it too. -/
def encodable (s : PyStr) : Bool := s.all fun c => !isSurrogate c

/-- `str.encode("utf-8")`, none where it raises UnicodeEncodeError. -/
def encodeUtf8 (s : PyStr) : Option Bytes :=
  if encodable s=true then some (s.flatMap encodeCodePoint) else none

/-- A UTF-8 continuation octet. -/
def isContinuation (b : UInt8) : Bool := 0x80 ≤ b && b ≤ 0xBF

/-- Whether `bytes.decode("utf-8")` succeeds. -/
def isUtf8 : Bytes → Bool
  | [] => true
  | b0::rest =>
    if b0 < 0x80 then isUtf8 rest
    else if 0xC2 ≤ b0 && b0 ≤ 0xDF then
      match rest with
      | b1::tail => isContinuation b1 && isUtf8 tail
      | [] => false
    else if 0xE0 ≤ b0 && b0 ≤ 0xEF then
      match rest with
      | b1::b2::tail => isContinuation b1 && isContinuation b2 && (b0 != 0xE0 || 0xA0 ≤ b1) &&
          (b0 != 0xED || b1 ≤ 0x9F) && isUtf8 tail
      | _ => false
    else if 0xF0 ≤ b0 && b0 ≤ 0xF4 then
      match rest with
      | b1::b2::b3::tail => isContinuation b1 && isContinuation b2 && isContinuation b3 &&
          (b0 != 0xF0 || 0x90 ≤ b1) && (b0 != 0xF4 || b1 ≤ 0x8F) && isUtf8 tail
      | _ => false
    else false

/-- `bytes.decode("utf-8")`, none where it raises UnicodeDecodeError. -/
def decodeUtf8 : Bytes → Option PyStr
  | [] => some []
  | b0::rest =>
    if b0 < 0x80 then (decodeUtf8 rest).map (Fin.ofNat 0x110000 b0.toNat :: ·)
    else if 0xC2 ≤ b0 && b0 ≤ 0xDF then
      match rest with
      | b1::tail =>
        if isContinuation b1 then
          (decodeUtf8 tail).map (Fin.ofNat 0x110000 ((b0.toNat-0xC0)*64+(b1.toNat-0x80)) :: ·)
        else none
      | [] => none
    else if 0xE0 ≤ b0 && b0 ≤ 0xEF then
      match rest with
      | b1::b2::tail =>
        if isContinuation b1 && isContinuation b2 && (b0 != 0xE0 || 0xA0 ≤ b1) && (b0 != 0xED || b1 ≤ 0x9F) then
          (decodeUtf8 tail).map
            (Fin.ofNat 0x110000 ((b0.toNat-0xE0)*4096+(b1.toNat-0x80)*64+(b2.toNat-0x80)) :: ·)
        else none
      | _ => none
    else if 0xF0 ≤ b0 && b0 ≤ 0xF4 then
      match rest with
      | b1::b2::b3::tail =>
        if isContinuation b1 && isContinuation b2 && isContinuation b3 && (b0 != 0xF0 || 0x90 ≤ b1) &&
            (b0 != 0xF4 || b1 ≤ 0x8F) then
          (decodeUtf8 tail).map (Fin.ofNat 0x110000
            ((b0.toNat-0xF0)*262144+(b1.toNat-0x80)*4096+(b2.toNat-0x80)*64+(b3.toNat-0x80)) :: ·)
        else none
      | _ => none
    else none

/-- Whether a Python int fits an SQLite INTEGER parameter. -/
def sqliteInteger (n : ℤ) : Bool := -(2^63 : ℤ) ≤ n && n < 2^63

/-- `str(n).encode("ascii")` of a length. -/
def asciiDigits (n : ℕ) : Bytes := (Nat.toDigits 10 n).map fun c => UInt8.ofNat c.toNat

/-- `separator.join(parts)`. -/
def joinText (separator : PyStr) (parts : List PyStr) : PyStr := List.intercalate separator parts

/-- A code point has at least one octet. -/
theorem encodeCodePoint_ne_nil (c : Fin 0x110000) : encodeCodePoint c≠[] := by
  unfold encodeCodePoint
  dsimp only
  split_ifs <;> simp

/-- The octets in front determine the first code point. -/
theorem encodeCodePoint_cancel {c d : Fin 0x110000} {u v : Bytes}
    (h : encodeCodePoint c ++ u=encodeCodePoint d ++ v) : c=d ∧ u=v := by
  suffices hval : c=d by
    subst hval
    exact ⟨rfl,List.append_cancel_left h⟩
  have hc := c.isLt
  have hd := d.isLt
  apply Fin.ext
  unfold encodeCodePoint at h
  dsimp only at h
  split_ifs at h <;>
    simp only [List.cons_append,List.nil_append,List.cons.injEq,← UInt8.toNat_inj,
      UInt8.toNat_ofNat'] at h <;> omega

/-- A text whose octets begin another text's octets begins that text. -/
theorem prefix_of_encoded {x y : PyStr}
    (h : x.flatMap encodeCodePoint <+: y.flatMap encodeCodePoint) : x <+: y := by
  induction x generalizing y with
  | nil => exact List.nil_prefix
  | cons c x ih =>
    obtain ⟨w,hw⟩ := h
    cases y with
    | nil =>
      have hnil : encodeCodePoint c=[] := by
        simp only [List.flatMap_cons,List.flatMap_nil,List.append_eq_nil_iff] at hw
        exact hw.1.1
      exact absurd hnil (encodeCodePoint_ne_nil c)
    | cons d y =>
      simp only [List.flatMap_cons,List.append_assoc] at hw
      obtain ⟨rfl,hrest⟩ := encodeCodePoint_cancel hw
      have htail : x <+: y := ih ⟨w,hrest⟩
      exact List.cons_prefix_cons.mpr ⟨rfl,htail⟩

/-- A successful encoding, octet by octet. -/
theorem encodeUtf8_eq_some {s : PyStr} {w : Bytes} (h : encodeUtf8 s=some w) :
    s.flatMap encodeCodePoint=w := by
  unfold encodeUtf8 at h
  split at h
  · exact Option.some.inj h
  · cases h

/-- Two texts with the same octets are the same text. -/
theorem encodeUtf8_injective {x y : PyStr} {w : Bytes} (hx : encodeUtf8 x=some w)
    (hy : encodeUtf8 y=some w) : x=y := by
  have hsame : x.flatMap encodeCodePoint=y.flatMap encodeCodePoint := by
    rw [encodeUtf8_eq_some hx,encodeUtf8_eq_some hy]
  have hforth : x <+: y := prefix_of_encoded (hsame ▸ List.prefix_rfl)
  have hback : y <+: x := prefix_of_encoded (hsame ▸ List.prefix_rfl)
  exact hforth.eq_of_length (le_antisymm hforth.length_le hback.length_le)

/-- An ASCII code point is its own octet. -/
theorem encodeCodePoint_ascii {c : Fin 0x110000} (h : c.val < 0x80) :
    encodeCodePoint c=[UInt8.ofNat c.val] := by
  unfold encodeCodePoint
  dsimp only
  rw [if_pos h]

/-- A text one code point longer. -/
theorem encodeUtf8_cons {c : Fin 0x110000} {s : PyStr} {w : Bytes} (hc : isSurrogate c=false)
    (h : encodeUtf8 s=some w) : encodeUtf8 (c::s)=some (encodeCodePoint c ++ w) := by
  have hs : encodable s=true := by
    unfold encodeUtf8 at h
    split at h
    · assumption
    · exact nomatch h
  have hall : encodable (c::s)=true := by
    simp only [encodable,List.all_cons,hc,Bool.not_false,Bool.true_and]
    exact hs
  unfold encodeUtf8
  rw [if_pos hall,List.flatMap_cons,encodeUtf8_eq_some h]

/-- The code point of the octets, decoded in front of a decoded rest. -/
theorem encodeUtf8_of_map {n : ℕ} {u w : Bytes} {rest : Option PyStr} {s : PyStr}
    (ih : ∀ t,rest=some t → encodeUtf8 t=some w) (hn : n < 0x110000) (hs : ¬(0xD800 ≤ n ∧ n ≤ 0xDFFF))
    (hfront : encodeCodePoint (Fin.ofNat 0x110000 n)=u)
    (h : rest.map (Fin.ofNat 0x110000 n :: ·)=some s) : encodeUtf8 s=some (u ++ w) := by
  obtain ⟨t,ht,rfl⟩ := Option.map_eq_some_iff.mp h
  have hval : (Fin.ofNat 0x110000 n).val=n := Nat.mod_eq_of_lt hn
  have hc : isSurrogate (Fin.ofNat 0x110000 n)=false := by
    unfold isSurrogate
    rw [hval]
    simpa only [Bool.and_eq_false_iff,decide_eq_false_iff_not,not_and_or] using hs
  rw [encodeUtf8_cons hc (ih t ht),hfront]

/-- The octets of the code point that was decoded. -/
theorem encodeCodePoint_ofNat {n : ℕ} (hn : n < 0x110000) : encodeCodePoint (Fin.ofNat 0x110000 n)=
    if n < 0x80 then [UInt8.ofNat n]
    else if n < 0x800 then [UInt8.ofNat (0xC0+n/64),UInt8.ofNat (0x80+n%64)]
    else if n < 0x10000 then
      [UInt8.ofNat (0xE0+n/4096),UInt8.ofNat (0x80+n/64%64),UInt8.ofNat (0x80+n%64)]
    else [UInt8.ofNat (0xF0+n/262144),UInt8.ofNat (0x80+n/4096%64),
      UInt8.ofNat (0x80+n/64%64),UInt8.ofNat (0x80+n%64)] := by
  have hval : (Fin.ofNat 0x110000 n).val=n := Nat.mod_eq_of_lt hn
  unfold encodeCodePoint
  rw [hval]

/-- A continuation octet, by its value. -/
theorem isContinuation_iff (b : UInt8) : isContinuation b=true ↔ 0x80 ≤ b.toNat ∧ b.toNat ≤ 0xBF := by
  simp [isContinuation,UInt8.le_iff_toNat_le]

/-- An octet is told by its value. -/
theorem ofNat_eq_octet (b : UInt8) {n : ℕ} (h : n=b.toNat) : UInt8.ofNat n=b := by
  rw [h]
  exact UInt8.ofNat_toNat

/-- A condition on the second octet that holds below some first octet. -/
theorem bound_of_or {b lead : UInt8} {p : Bool} {P : Prop} (hp : p=true → P)
    (h : (b != lead || p)=true) : b.toNat=lead.toNat → P := by
  intro heq
  have hb : b=lead := UInt8.toNat_inj.mp heq
  subst hb
  exact hp (by simpa using h)

/-- What decodes encodes to the same octets. -/
theorem encodeUtf8_of_decodeUtf8 {b : Bytes} {s : PyStr} (h : decodeUtf8 b=some s) : encodeUtf8 s=some b := by
  fun_induction decodeUtf8 b generalizing s with
  | case1 =>
    cases h
    rfl
  | case2 b0 rest hb0 ih =>
    have hlt : b0.toNat < 0x80 := by simpa using UInt8.lt_iff_toNat_lt.mp hb0
    refine encodeUtf8_of_map (u := [b0]) (fun t ht => ih ht) (by omega) (by omega) ?_ h
    rw [encodeCodePoint_ofNat (by omega),if_pos hlt,ofNat_eq_octet b0 rfl]
  | case3 b0 _ hb0 b1 tail hb1 ih =>
    have hlead : 0xC2 ≤ b0.toNat ∧ b0.toNat ≤ 0xDF := by simpa [UInt8.le_iff_toNat_le] using hb0
    have hcont := (isContinuation_iff b1).mp hb1
    refine encodeUtf8_of_map (u := [b0,b1]) (fun t ht => ih ht) (by omega) (by omega) ?_ h
    rw [encodeCodePoint_ofNat (by omega),if_neg (by omega),if_pos (by omega),ofNat_eq_octet b0 (by omega),
      ofNat_eq_octet b1 (by omega)]
  | case6 b0 _ _ hb0 b1 b2 tail hrest ih =>
    have hlead : 0xE0 ≤ b0.toNat ∧ b0.toNat ≤ 0xEF := by simpa [UInt8.le_iff_toNat_le] using hb0
    simp only [Bool.and_eq_true] at hrest
    obtain ⟨⟨⟨hb1,hb2⟩,hlow⟩,hhigh⟩ := hrest
    have hcont1 := (isContinuation_iff b1).mp hb1
    have hcont2 := (isContinuation_iff b2).mp hb2
    have hnotShort : b0.toNat=0xE0 → 0xA0 ≤ b1.toNat :=
      bound_of_or (fun hp => UInt8.le_iff_toNat_le.mp (of_decide_eq_true hp)) hlow
    have hnotSurrogate : b0.toNat=0xED → b1.toNat ≤ 0x9F :=
      bound_of_or (fun hp => UInt8.le_iff_toNat_le.mp (of_decide_eq_true hp)) hhigh
    refine encodeUtf8_of_map (u := [b0,b1,b2]) (fun t ht => ih ht) (by omega) (by omega) ?_ h
    rw [encodeCodePoint_ofNat (by omega),if_neg (by omega),if_neg (by omega),if_pos (by omega),
      ofNat_eq_octet b0 (by omega),ofNat_eq_octet b1 (by omega),ofNat_eq_octet b2 (by omega)]
  | case9 b0 _ _ _ hb0 b1 b2 b3 tail hrest ih =>
    have hlead : 0xF0 ≤ b0.toNat ∧ b0.toNat ≤ 0xF4 := by simpa [UInt8.le_iff_toNat_le] using hb0
    simp only [Bool.and_eq_true] at hrest
    obtain ⟨⟨⟨⟨hb1,hb2⟩,hb3⟩,hlow⟩,hhigh⟩ := hrest
    have hcont1 := (isContinuation_iff b1).mp hb1
    have hcont2 := (isContinuation_iff b2).mp hb2
    have hcont3 := (isContinuation_iff b3).mp hb3
    have hnotShort : b0.toNat=0xF0 → 0x90 ≤ b1.toNat :=
      bound_of_or (fun hp => UInt8.le_iff_toNat_le.mp (of_decide_eq_true hp)) hlow
    have hnotBeyond : b0.toNat=0xF4 → b1.toNat ≤ 0x8F :=
      bound_of_or (fun hp => UInt8.le_iff_toNat_le.mp (of_decide_eq_true hp)) hhigh
    refine encodeUtf8_of_map (u := [b0,b1,b2,b3]) (fun t ht => ih ht) (by omega) (by omega) ?_ h
    rw [encodeCodePoint_ofNat (by omega),if_neg (by omega),if_neg (by omega),if_neg (by omega),
      ofNat_eq_octet b0 (by omega),ofNat_eq_octet b1 (by omega),ofNat_eq_octet b2 (by omega),
      ofNat_eq_octet b3 (by omega)]
  | _ => exact nomatch h

/-- A literal has no lone surrogate. -/
theorem encodable_pyStr (s : String) : encodable (pyStr s)=true := by
  refine List.all_eq_true.mpr fun c hc => ?_
  obtain ⟨char,_,rfl⟩ := List.mem_map.mp hc
  have hvalid := char.valid
  simp only [UInt32.isValidChar,Nat.isValidChar] at hvalid
  simp only [isSurrogate,Char.toNat,Bool.not_eq_true',Bool.and_eq_false_iff,decide_eq_false_iff_not]
  omega

/-- The character of a decimal digit. -/
theorem digit_range {n : ℕ} {c : Char} (h : c∈Nat.toDigits 10 n) : 48 ≤ c.toNat ∧ c.toNat ≤ 57 := by
  have hdigit : c.isDigit=true := Nat.isDigit_of_mem_toDigits (by omega) (by omega) h
  simp only [Char.isDigit,Bool.and_eq_true,decide_eq_true_eq] at hdigit
  exact hdigit

/-- No control octet is a digit. -/
theorem notMem_asciiDigits {b : UInt8} (h : b.toNat < 48) (n : ℕ) : b∉asciiDigits n := by
  intro hmem
  obtain ⟨c,hc,rfl⟩ := List.mem_map.mp hmem
  have hrange := digit_range hc
  rw [UInt8.toNat_ofNat'] at h
  omega

/-- The digits of a length, read back. -/
theorem asciiDigits_chars (n : ℕ) :
    (asciiDigits n).map (fun b => Char.ofNat b.toNat)=Nat.toDigits 10 n := by
  rw [asciiDigits,List.map_map]
  conv_rhs => rw [← List.map_id (Nat.toDigits 10 n)]
  apply List.map_congr_left
  intro c hc
  have hrange := digit_range hc
  have hval : (UInt8.ofNat c.toNat).toNat=c.toNat := by
    rw [UInt8.toNat_ofNat']
    omega
  simp only [Function.comp_apply,hval,Char.ofNat_toNat,id_eq]

/-- No two lengths are written the same. -/
theorem asciiDigits_injective : Function.Injective asciiDigits := by
  intro m n h
  have hchars : Nat.toDigits 10 m=Nat.toDigits 10 n := by
    rw [← asciiDigits_chars,← asciiDigits_chars,h]
  have hread := congrArg (fun cs => Nat.ofDigitChars 10 cs 0) hchars
  simpa only [Nat.ofDigitChars_ten_toDigits] using hread

/-- The printed length encodes to its digits. -/
theorem encoded_toString (n : ℕ) : (pyStr (toString n)).flatMap encodeCodePoint=asciiDigits n := by
  have htext : (toString n).toList=Nat.toDigits 10 n := by
    rw [show toString n=Nat.repr n from rfl,Nat.toList_repr]
  unfold pyStr asciiDigits
  rw [htext,List.flatMap_map,List.map_eq_flatMap]
  apply List.flatMap_congr
  intro c hc
  have hrange := digit_range hc
  exact encodeCodePoint_ascii (show c.toNat < 0x80 by omega)

end GenericMlCache.PythonText
