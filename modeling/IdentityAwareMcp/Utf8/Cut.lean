import Mathlib.Algebra.GroupWithZero.Nat
import IdentityAwareMcp.Utf8.Codec

namespace Utf8

def Valid (b : List UInt8) : Prop := encode (decode b) = b

instance (b : List UInt8) : Decidable (Valid b) := inferInstanceAs (Decidable (encode (decode b) = b))

@[simp] theorem encode_nil : encode [] = [] := rfl

theorem encode_cons (c : Char) (t : List Char) : encode (c :: t) = encodeChar c ++ encode t := rfl

theorem encode_append (s t : List Char) : encode (s ++ t) = encode s ++ encode t := List.flatMap_append

section Reencoding

variable {v : Nat}

theorem ofNat_toNat_valid (h : v < 0xD800 ∨ 0xDFFF < v ∧ v < 0x110000) : (Char.ofNat v).toNat = v := by
  rw [Char.ofNat,dif_pos (show v.isValidChar from h)]
  rfl

theorem encodeChar_two (h : 0x80 ≤ v) (h' : v < 0x800) :
    encodeChar (Char.ofNat v) = [.ofNat (0xC0 + v / 64),.ofNat (0x80 + v % 64)] := by
  rw [encodeChar,ofNat_toNat_valid (by omega),if_neg (by omega),if_pos h']

theorem encodeChar_three (h : 0x800 ≤ v) (h' : v < 0x10000) (hs : v < 0xD800 ∨ 0xDFFF < v) :
    encodeChar (Char.ofNat v) = [.ofNat (0xE0 + v / 4096),.ofNat (0x80 + v / 64 % 64),.ofNat (0x80 + v % 64)] := by
  rw [encodeChar,ofNat_toNat_valid (by omega),if_neg (by omega),if_neg (by omega),if_pos h']

theorem encodeChar_four (h : 0x10000 ≤ v) (h' : v < 0x110000) :
    encodeChar (Char.ofNat v) = [.ofNat (0xF0 + v / 262144),.ofNat (0x80 + v / 4096 % 64),
      .ofNat (0x80 + v / 64 % 64),.ofNat (0x80 + v % 64)] := by
  rw [encodeChar,ofNat_toNat_valid (by omega),if_neg (by omega),if_neg (by omega),if_neg (by omega)]

theorem byte_eq {b : UInt8} {n : Nat} (h : b.toNat = n) : UInt8.ofNat n = b := by
  rw [← h,UInt8.ofNat_toNat]

theorem lead_cases {x : Nat} {l : Lead} (h : lead x = some l) :
    (l.more = 0 ∧ 0xC2 ≤ x ∧ x < 0xE0 ∧ l.bits = x - 0xC0 ∧ 0x80 ≤ l.lo ∧ l.hi ≤ 0xBF) ∨
      (l.more = 1 ∧ 0xE0 ≤ x ∧ x < 0xF0 ∧ l.bits = x - 0xE0 ∧ 0x80 ≤ l.lo ∧ l.hi ≤ 0xBF ∧
        (x = 0xE0 → 0xA0 ≤ l.lo) ∧ (x = 0xED → l.hi ≤ 0x9F)) ∨
      (l.more = 2 ∧ 0xF0 ≤ x ∧ x < 0xF5 ∧ l.bits = x - 0xF0 ∧ 0x80 ≤ l.lo ∧ l.hi ≤ 0xBF ∧
        (x = 0xF0 → 0x90 ≤ l.lo) ∧ (x = 0xF4 → l.hi ≤ 0x8F)) := by
  unfold lead at h
  repeat' split at h
  all_goals first | (cases h; grind) | cases h

variable {x y : UInt8} {rest : List UInt8} {l : Lead}

theorem reencode_two (hb : l.bits = x.toNat - 0xC0) (hx : 0xC2 ≤ x.toNat) (hx' : x.toNat < 0xE0)
    (hy : 0x80 ≤ y.toNat) (hy' : y.toNat ≤ 0xBF) :
    encodeChar (Char.ofNat (l.bits * 64 + (y.toNat - 0x80))) = [x,y] := by
  rw [encodeChar_two (by omega) (by omega),byte_eq (b := x) (by omega),byte_eq (b := y) (by omega)]

theorem reencode_three {z : UInt8} (hb : l.bits = x.toNat - 0xE0) (hx : 0xE0 ≤ x.toNat) (hx' : x.toNat < 0xF0)
    (hy : 0x80 ≤ y.toNat) (hy' : y.toNat ≤ 0xBF) (hlo : x.toNat = 0xE0 → 0xA0 ≤ y.toNat)
    (hhi : x.toNat = 0xED → y.toNat ≤ 0x9F) (hz : Continuation z) :
    encodeChar (Char.ofNat ((l.bits * 64 + (y.toNat - 0x80)) * 64 + (z.toNat - 0x80))) = [x,y,z] := by
  obtain ⟨hz,hz'⟩ := hz
  rw [encodeChar_three (by omega) (by omega) (by omega),byte_eq (b := x) (by omega),byte_eq (b := y) (by omega),
    byte_eq (b := z) (by omega)]

theorem reencode_four {z z' : UInt8} (hb : l.bits = x.toNat - 0xF0) (hx : 0xF0 ≤ x.toNat) (hx' : x.toNat < 0xF5)
    (hy : 0x80 ≤ y.toNat) (hy' : y.toNat ≤ 0xBF) (hlo : x.toNat = 0xF0 → 0x90 ≤ y.toNat)
    (hhi : x.toNat = 0xF4 → y.toNat ≤ 0x8F) (hz : Continuation z) (hz' : Continuation z') :
    encodeChar (Char.ofNat (((l.bits * 64 + (y.toNat - 0x80)) * 64 + (z.toNat - 0x80)) * 64 + (z'.toNat - 0x80))) =
      [x,y,z,z'] := by
  obtain ⟨h1,h2⟩ := hz
  obtain ⟨h3,h4⟩ := hz'
  rw [encodeChar_four (by omega) (by omega),byte_eq (b := x) (by omega),byte_eq (b := y) (by omega),
    byte_eq (b := z) (by omega),byte_eq (b := z') (by omega)]

-- One step of decoding takes a whole character, or replaces at most three bytes.
def Whole (b : UInt8) (rest : List UInt8) : Prop := encodeChar (decodeOne b rest).1 = b :: rest.take (decodeOne b rest).2

instance (b : UInt8) (rest : List UInt8) : Decidable (Whole b rest) :=
  inferInstanceAs (Decidable (encodeChar (decodeOne b rest).1 = b :: rest.take (decodeOne b rest).2))

theorem follow_cases (n acc used : Nat) (bs : List UInt8) :
    ((follow n acc used bs).1 = replacement ∧ (follow n acc used bs).2 < used + n ∧ (follow n acc used bs).2 ≤ used + bs.length) ∨
      ∃ cs ds, bs = cs ++ ds ∧ cs.length = n ∧ (∀ c ∈ cs, Continuation c) ∧
        follow n acc used bs = (Char.ofNat (value acc cs),used + n) := by
  induction n generalizing acc used bs with
  | zero => exact .inr ⟨[],bs,rfl,rfl,by simp,rfl⟩
  | succ n ih =>
    cases bs with
    | nil => exact .inl ⟨rfl,by simp [follow],by simp [follow]⟩
    | cons b bs =>
      by_cases hb : Continuation b
      · simp only [follow,if_pos hb]
        rcases ih (acc * 64 + (b.toNat - 0x80)) (used + 1) bs with ⟨hr,hu,hl⟩ | ⟨cs,ds,rfl,hn,hc,he⟩
        · exact .inl ⟨hr,by omega,by simp only [List.length_cons]; omega⟩
        · refine .inr ⟨b :: cs,ds,rfl,by simp [hn],by simpa [hb] using hc,?_⟩
          rw [he,show used + 1 + n = used + (n + 1) by omega]
          simp only [value,List.foldl_cons]
      · exact .inl ⟨by simp [follow,hb],by simp [follow,hb],by simp [follow,hb]⟩

theorem decodeOne_cases (b : UInt8) (rest : List UInt8) :
    (decodeOne b rest).2 ≤ rest.length ∧
      (Whole b rest ∨ (decodeOne b rest).1 = replacement ∧ (decodeOne b rest).2 ≤ 2) := by
  by_cases hlow : b.toNat < 0x80
  · have he : decodeOne b rest = (Char.ofNat b.toNat,0) := by rw [decodeOne,if_pos hlow]
    refine ⟨by rw [he]; exact Nat.zero_le _,.inl ?_⟩
    rw [Whole,he,encodeChar,ofNat_toNat_valid (by omega),if_pos hlow,UInt8.ofNat_toNat,List.take_zero]
  cases hl : lead b.toNat with
  | none =>
    have he : decodeOne b rest = (replacement,0) := by rw [decodeOne,if_neg hlow,hl]
    exact ⟨by rw [he]; exact Nat.zero_le _,.inr ⟨by rw [he],by rw [he]; exact Nat.zero_le _⟩⟩
  | some l =>
    cases rest with
    | nil =>
      have he : decodeOne b [] = (replacement,0) := by rw [decodeOne,if_neg hlow,hl]
      exact ⟨by rw [he]; exact Nat.zero_le _,.inr ⟨by rw [he],by rw [he]; exact Nat.zero_le _⟩⟩
    | cons y rest =>
      by_cases hy : l.lo ≤ y.toNat ∧ y.toNat ≤ l.hi
      · have he : decodeOne b (y :: rest) = follow l.more (l.bits * 64 + (y.toNat - 0x80)) 1 rest := by
          simp only [decodeOne,if_neg hlow,hl,if_pos hy]
        have hcases := lead_cases hl
        rw [Whole,he]
        rcases follow_cases l.more (l.bits * 64 + (y.toNat - 0x80)) 1 rest with ⟨hr,hu,hlen⟩ | ⟨cs,ds,rfl,hn,hc,hf⟩
        · exact ⟨by simp only [List.length_cons]; omega,.inr ⟨hr,by omega⟩⟩
        · refine ⟨by rw [hf]; simp only [List.length_cons,List.length_append]; omega,.inl ?_⟩
          rw [hf]
          simp only [Nat.add_comm 1,List.take_succ_cons,← hn,List.take_left']
          rcases hcases with ⟨hm,hx,hx',hb,hlo,hhi⟩ | ⟨hm,hx,hx',hb,hlo,hhi,h0,hD⟩ | ⟨hm,hx,hx',hb,hlo,hhi,h0,h4⟩
          · rw [hm] at hn
            obtain rfl := List.length_eq_zero_iff.mp hn
            exact reencode_two hb hx hx' (by omega) (by omega)
          · rw [hm] at hn
            obtain ⟨z,rfl⟩ := List.length_eq_one_iff.mp hn
            exact reencode_three hb hx hx' (by omega) (by omega) (by omega) (by omega) (hc z (by simp))
          · rw [hm] at hn
            obtain ⟨z,z',rfl⟩ := List.length_eq_two.mp hn
            exact reencode_four hb hx hx' (by omega) (by omega) (by omega) (by omega) (hc z (by simp)) (hc z' (by simp))
      · have he : decodeOne b (y :: rest) = (replacement,0) := by simp only [decodeOne,if_neg hlow,hl,if_neg hy]
        exact ⟨by rw [he]; exact Nat.zero_le _,.inr ⟨by rw [he],by rw [he]; exact Nat.zero_le _⟩⟩

end Reencoding

section Growth

-- The lengths of the maximal ill-formed parts, each of which decoding replaces by one U+FFFD.
def illFormedFrom : Nat → List UInt8 → List Nat
  | _, [] => []
  | n + 1, _ :: rest => illFormedFrom n rest
  | 0, b :: rest =>
    if Whole b rest then illFormedFrom (decodeOne b rest).2 rest
    else ((decodeOne b rest).2 + 1) :: illFormedFrom (decodeOne b rest).2 rest

def illFormed (b : List UInt8) : List Nat := illFormedFrom 0 b

def growth (b : List UInt8) : Nat := ((illFormed b).map (fun n => 3 - n)).sum

theorem replacement_length : (encodeChar replacement).length = 3 := by decide

theorem encode_decodeFrom (n : Nat) (b : List UInt8) (hn : n ≤ b.length) :
    (encode (decodeFrom n b)).length + n = b.length + ((illFormedFrom n b).map (fun n => 3 - n)).sum := by
  induction b generalizing n with
  | nil =>
    cases hn
    rfl
  | cons x b ih =>
    cases n with
    | succ n =>
      have h := ih n (Nat.le_of_succ_le_succ hn)
      simp only [decodeFrom,illFormedFrom,List.length_cons]
      omega
    | zero =>
      obtain ⟨hu,hw⟩ := decodeOne_cases x b
      have h := ih (decodeOne x b).2 hu
      simp only [decodeFrom,illFormedFrom,encode_cons,List.length_append,List.length_cons]
      split
      · rename_i hwhole
        rw [hwhole,List.length_cons,List.length_take,Nat.min_eq_left hu]
        omega
      · rename_i hbroken
        obtain ⟨hr,hle⟩ := hw.resolve_left hbroken
        rw [hr,replacement_length,List.map_cons,List.sum_cons]
        omega

theorem encode_decode_length (b : List UInt8) : (encode (decode b)).length = b.length + growth b :=
  encode_decodeFrom 0 b (Nat.zero_le _)

end Growth

section Prefixes

theorem fits_le (n : Nat) (t : List Char) : (encode (t.take (fits n t))).length ≤ n := by
  induction t generalizing n with
  | nil => simp
  | cons c t ih =>
    simp only [fits]
    split
    · rename_i hc
      have h := ih (n - (encodeChar c).length)
      rw [List.take_succ_cons,encode_cons,List.length_append]
      omega
    · simp

theorem fits_longest {n j : Nat} {t : List Char} (hj : j ≤ t.length) (h : (encode (t.take j)).length ≤ n) : j ≤ fits n t := by
  induction t generalizing n j with
  | nil => exact Nat.le_trans hj (Nat.zero_le _)
  | cons c t ih =>
    cases j with
    | zero => exact Nat.zero_le _
    | succ j =>
      rw [List.take_succ_cons,encode_cons,List.length_append] at h
      rw [fits,if_pos (by omega)]
      exact Nat.succ_le_succ (ih (Nat.le_of_succ_le_succ hj) (by omega))

-- How many bytes of the character that does not fit are left before the cut.
def overhang (n : Nat) (t : List Char) : Nat := n - (encode (t.take (fits n t))).length

theorem splits_overhang {n : Nat} {t : List Char} (h : n < (encode t).length) : splits n t = decide (overhang n t ≠ 0) := by
  induction t generalizing n with
  | nil => cases h
  | cons c t ih =>
    rw [encode_cons,List.length_append] at h
    simp only [splits,overhang,fits]
    split
    · rw [ih (by omega),overhang,List.take_succ_cons,encode_cons,List.length_append,Nat.sub_sub]
    · rw [List.take_zero,encode_nil,List.length_nil,Nat.sub_zero]

end Prefixes

section Surrogates

def Point.shown : Point → Char
  | .scalar c => c
  | .surrogate _ => '?'

theorem encodeReplace_shown (t : List Point) : encodeReplace t = encode (t.map Point.shown) := by
  rw [encodeReplace,encode,List.flatMap_map]
  refine List.flatMap_congr (fun p _ => ?_)
  cases p with
  | scalar c => rfl
  | surrogate n =>
    show [0x3F] = encodeChar '?'
    decide

theorem shown_scalars (t : List Char) : (t.map Point.scalar).map Point.shown = t := by
  rw [List.map_map]
  exact List.map_id t

theorem encodeReplace_scalars (t : List Char) : encodeReplace (t.map .scalar) = encode t := by
  rw [encodeReplace_shown,shown_scalars]

end Surrogates

end Utf8
