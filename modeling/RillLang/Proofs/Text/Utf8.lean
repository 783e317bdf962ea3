import Mathlib.Data.List.Forall2
import Mathlib.Tactic.IntervalCases
import RillLang.Text.Utf8

/-!
# Decoding what was encoded

The bytes of a text decode to the text (`decode_encode`).

* `decodeOnto_trail` — the bytes after the first one add six bits each, as long as every
  one lies in the range that was announced for it.
* `spells_utf8EncodeChar` — the first byte of a character announces ranges in which its other
  bytes lie.
-/

namespace RillLang.Text.Utf8

/-- The bytes of a text. -/
def encode (text : String) : List UInt8 := text.toUTF8.data.toList

/-- The bytes of a text are those of its characters in a row. -/
theorem encode_eq_flatMap (text : String) :
    encode text = text.toList.flatMap String.utf8EncodeChar := by
  have hbytes : text.toUTF8 = (text.toList.flatMap String.utf8EncodeChar).toByteArray :=
    String.utf8Encode_toList.symm
  rw [encode, hbytes, List.toList_data_toByteArray]

/-! ## Bytes after the first -/

/-- A byte that is not the first of its character, from its six bits. -/
def trail (x : Nat) : UInt8 := UInt8.ofNat (x + 0x80)

/-- The byte of six bits lies in a range. -/
def Allows (range : Range) (x : Nat) : Prop := x < 64 ∧ range.1 ≤ x + 0x80 ∧ x + 0x80 ≤ range.2

/-- The number whose digits in base 64 go on from `bits`. -/
def withTrail (bits : Nat) (xs : List Nat) : Nat := xs.foldl (fun bits x => bits * 64 + x) bits

theorem trail_toNat {x : Nat} (hx : x < 64) : (trail x).toNat = x + 0x80 := by
  rw [trail, UInt8.toNat_ofNat']
  omega

theorem allows_anyContinuation {x : Nat} (hx : x < 64) : Allows anyContinuation x :=
  ⟨hx, Nat.le_add_left _ _, Nat.add_le_add_right (Nat.le_of_lt_succ hx) 0x80⟩

/-- A sequence that has begun is completed by bytes that all lie in their ranges.  The
offset counts in faults only. -/
theorem decodeOnto_trail (done : List Char) (bytes : List UInt8) {xs : List Nat} {p : Partial}
    (hallows : List.Forall₂ Allows (p.next :: p.more) xs) (offset : Nat) :
    ∃ offset', decodeOnto done offset (some p) (xs.map trail ++ bytes) =
      decodeOnto (Char.ofNat (withTrail p.bits xs) :: done) offset' none bytes := by
  induction xs generalizing p offset with
  | nil => cases hallows
  | cons x xs ih =>
      cases hallows with
      | cons hx hxs =>
          have hrange : p.next.1 ≤ (trail x).toNat ∧ (trail x).toNat ≤ p.next.2 := by
            rw [trail_toNat hx.1]
            exact hx.2
          have hbits : (trail x).toNat - 0x80 = x := by
            rw [trail_toNat hx.1]
            omega
          rw [List.map_cons, List.cons_append, decodeOnto]
          simp only [hrange, and_self, if_true, hbits]
          cases hmore : p.more with
          | nil =>
              rw [hmore] at hxs
              cases hxs
              exact ⟨offset + 1, rfl⟩
          | cons next more =>
              rw [hmore] at hxs
              exact ih (p := ⟨p.start, p.lead, p.taken + 1, p.bits * 64 + x, next, more⟩) hxs
                (offset + 1)

/-! ## First bytes -/

/-- The range of the second byte after a first byte with the bits `n`: no bits leave less
room at its low end, the bits `last` at its high end. -/
def secondRange (least last most n : Nat) : Range :=
  if n = 0 then (least, 0xbf) else if n = last then (0x80, most) else anyContinuation

theorem lead?_two {n : Nat} (hlow : 2 ≤ n) (hhigh : n < 32) :
    lead? (n + 0xc0) = some (n, anyContinuation, []) := by
  interval_cases n <;> rfl

theorem lead?_three {n : Nat} (h : n < 16) :
    lead? (n + 0xe0) = some (n, secondRange 0xa0 0xd 0x9f n, [anyContinuation]) := by
  interval_cases n <;> rfl

theorem lead?_four {n : Nat} (h : n < 5) :
    lead? (n + 0xf0) = some (n, secondRange 0x90 4 0x8f n, [anyContinuation, anyContinuation]) := by
  interval_cases n <;> rfl

theorem allows_secondRange {least last most n x : Nat} (hx : x < 64)
    (hleast : n = 0 → least ≤ x + 0x80) (hmost : n = last → x + 0x80 ≤ most) :
    Allows (secondRange least last most n) x := by
  unfold secondRange
  split
  case isTrue hn => exact ⟨hx, hleast hn, (allows_anyContinuation hx).2.2⟩
  case isFalse =>
    split
    case isTrue hn => exact ⟨hx, (allows_anyContinuation hx).2.1, hmost hn⟩
    case isFalse => exact allows_anyContinuation hx

/-! ## Characters that take several bytes -/

/-- The bytes start with one that announces ranges in which the others lie, and together
they have the bits of `v`. -/
def Spells (bytes : List UInt8) (v : Nat) : Prop :=
  ∃ (b : UInt8) (bits : Nat) (next : Range) (more : List Range) (xs : List Nat),
    bytes = b :: xs.map trail ∧ 0x80 ≤ b.toNat ∧ lead? b.toNat = some (bits, next, more) ∧
      List.Forall₂ Allows (next :: more) xs ∧ withTrail bits xs = v

theorem spells_of_lead? {n bits : Nat} {next : Range} {more : List Range} {xs : List Nat}
    (hn : 0x80 ≤ n ∧ n < 0x100) (hlead : lead? n = some (bits, next, more))
    (hallows : List.Forall₂ Allows (next :: more) xs) :
    Spells (UInt8.ofNat n :: xs.map trail) (withTrail bits xs) := by
  have hbyte : (UInt8.ofNat n).toNat = n := by
    rw [UInt8.toNat_ofNat']
    exact Nat.mod_eq_of_lt hn.2
  exact ⟨_, bits, next, more, xs, rfl, by rw [hbyte]; exact hn.1, by rw [hbyte]; exact hlead,
    hallows, rfl⟩

variable {v : Nat}

theorem spells_two (hlow : 0x80 ≤ v) (hhigh : v < 0x800) :
    Spells [UInt8.ofNat (v / 64 % 32 + 0xc0), trail (v % 64)] v := by
  have hlead : v / 64 % 32 = v / 64 := by omega
  have hvalue : withTrail (v / 64) [v % 64] = v := by
    show v / 64 * 64 + v % 64 = v
    omega
  have hspells : Spells (UInt8.ofNat (v / 64 + 0xc0) :: [v % 64].map trail)
      (withTrail (v / 64) [v % 64]) :=
    spells_of_lead? (by omega) (lead?_two (by omega) (by omega))
      (.cons (allows_anyContinuation (by omega)) .nil)
  rwa [hvalue, ← hlead] at hspells

theorem spells_three (hlow : 0x800 ≤ v) (hhigh : v < 0x10000)
    (hscalar : v < 0xd800 ∨ 0xe000 ≤ v) :
    Spells [UInt8.ofNat (v / 4096 % 16 + 0xe0), trail (v / 64 % 64), trail (v % 64)] v := by
  have hlead : v / 4096 % 16 = v / 4096 := by omega
  have hvalue : withTrail (v / 4096) [v / 64 % 64, v % 64] = v := by
    show (v / 4096 * 64 + v / 64 % 64) * 64 + v % 64 = v
    omega
  have hspells : Spells (UInt8.ofNat (v / 4096 + 0xe0) :: [v / 64 % 64, v % 64].map trail)
      (withTrail (v / 4096) [v / 64 % 64, v % 64]) :=
    -- No bits leave a character of two bytes, and the bits of `0xd` a surrogate.
    spells_of_lead? (by omega) (lead?_three (by omega))
      (.cons (allows_secondRange (by omega) (by omega) (by omega))
        (.cons (allows_anyContinuation (by omega)) .nil))
  rwa [hvalue, ← hlead] at hspells

theorem spells_four (hlow : 0x10000 ≤ v) (hhigh : v < 0x110000) :
    Spells [UInt8.ofNat (v / 262144 % 8 + 0xf0), trail (v / 4096 % 64), trail (v / 64 % 64),
      trail (v % 64)] v := by
  have hlead : v / 262144 % 8 = v / 262144 := by omega
  have hvalue : withTrail (v / 262144) [v / 4096 % 64, v / 64 % 64, v % 64] = v := by
    show ((v / 262144 * 64 + v / 4096 % 64) * 64 + v / 64 % 64) * 64 + v % 64 = v
    omega
  have hspells :
      Spells (UInt8.ofNat (v / 262144 + 0xf0) :: [v / 4096 % 64, v / 64 % 64, v % 64].map trail)
        (withTrail (v / 262144) [v / 4096 % 64, v / 64 % 64, v % 64]) :=
    -- No bits leave a character of three bytes, and the bits of `4` none at all.
    spells_of_lead? (by omega) (lead?_four (by omega))
      (.cons (allows_secondRange (by omega) (by omega) (by omega))
        (.cons (allows_anyContinuation (by omega))
          (.cons (allows_anyContinuation (by omega)) .nil)))
  rwa [hvalue, ← hlead] at hspells

/-- A character that takes several bytes is spelled by them. -/
theorem spells_utf8EncodeChar {c : Char} (hc : 0x80 ≤ c.toNat) :
    Spells (String.utf8EncodeChar c) c.toNat := by
  have hvalid : c.toNat < 0xd800 ∨ 0xdfff < c.toNat ∧ c.toNat < 0x110000 := c.valid
  fun_cases String.utf8EncodeChar c with
  | case1 v hone => exact absurd hone (Nat.not_le.2 hc)
  | case2 v hone htwo => exact spells_two hc (Nat.lt_succ_of_le htwo)
  | case3 v hone htwo hthree =>
      exact spells_three (Nat.lt_of_not_le htwo) (Nat.lt_succ_of_le hthree)
        (hvalid.imp_right And.left)
  | case4 v hone htwo hthree =>
      have hbig : 0xffff < c.toNat := Nat.lt_of_not_le hthree
      have hend : c.toNat < 0x110000 := by omega
      exact spells_four hbig hend

/-! ## The round trip -/

/-- The bytes of a character are decoded to it, whatever follows. -/
theorem decodeOnto_utf8EncodeChar (done : List Char) (c : Char) (bytes : List UInt8)
    (offset : Nat) :
    ∃ offset', decodeOnto done offset none (String.utf8EncodeChar c ++ bytes) =
      decodeOnto (c :: done) offset' none bytes := by
  by_cases hc : c.toNat < 0x80
  · have hbyte : (UInt8.ofNat c.toNat).toNat = c.toNat := by
      rw [UInt8.toNat_ofNat']
      omega
    have hspelling : String.utf8EncodeChar c = [UInt8.ofNat c.toNat] :=
      if_pos (Nat.le_of_lt_succ hc)
    refine ⟨offset + 1, ?_⟩
    rw [hspelling, List.singleton_append, decodeOnto]
    simp only [hbyte, hc, if_true, Char.ofNat_toNat]
  · obtain ⟨b, bits, next, more, xs, hspelling, hb, hlead, hallows, hvalue⟩ :=
      spells_utf8EncodeChar (Nat.le_of_not_lt hc)
    obtain ⟨offset', htrail⟩ := decodeOnto_trail done bytes
      (p := ⟨offset, b, 1, bits, next, more⟩) hallows (offset + 1)
    refine ⟨offset', ?_⟩
    rw [hspelling, List.cons_append, decodeOnto]
    simp only [Nat.not_lt.2 hb, if_false, hlead]
    rw [htrail]
    simp only [hvalue, Char.ofNat_toNat]

theorem decodeOnto_flatMap (done text : List Char) (offset : Nat) :
    decodeOnto done offset none (text.flatMap String.utf8EncodeChar) =
      .ok (done.reverse ++ text) := by
  induction text generalizing done offset with
  | nil => rw [List.flatMap_nil, decodeOnto, List.append_nil]
  | cons c cs ih =>
      obtain ⟨offset', hstep⟩ :=
        decodeOnto_utf8EncodeChar done c (cs.flatMap String.utf8EncodeChar) offset
      rw [List.flatMap_cons, hstep, ih, List.reverse_cons, List.append_assoc,
        List.singleton_append]

/-- The bytes of a text decode to its characters. -/
theorem decode_encode (text : String) : decode (encode text) = .ok text.toList := by
  rw [encode_eq_flatMap]
  exact decodeOnto_flatMap [] text.toList 0

end RillLang.Text.Utf8
