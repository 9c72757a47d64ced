import Mathlib.Data.List.Basic

namespace Utf8

def encodeChar (c : Char) : List UInt8 :=
  if c.toNat < 0x80 then [.ofNat c.toNat]
  else if c.toNat < 0x800 then [.ofNat (0xC0 + c.toNat / 64),.ofNat (0x80 + c.toNat % 64)]
  else if c.toNat < 0x10000 then
    [.ofNat (0xE0 + c.toNat / 4096),.ofNat (0x80 + c.toNat / 64 % 64),.ofNat (0x80 + c.toNat % 64)]
  else
    [.ofNat (0xF0 + c.toNat / 262144),.ofNat (0x80 + c.toNat / 4096 % 64),
      .ofNat (0x80 + c.toNat / 64 % 64),.ofNat (0x80 + c.toNat % 64)]

def encode (t : List Char) : List UInt8 := t.flatMap encodeChar

-- A Python text may hold surrogates; encode(errors="replace") writes each as '?'.
inductive Point where
  | scalar (c : Char)
  | surrogate (n : Fin 0x800)
deriving DecidableEq

def encodePoint : Point → List UInt8
  | .scalar c => encodeChar c
  | .surrogate _ => [0x3F]

def encodeReplace (t : List Point) : List UInt8 := t.flatMap encodePoint

def replacement : Char := Char.ofNat 0xFFFD

structure Lead where
  lo : Nat
  hi : Nat
  more : Nat
  bits : Nat

-- The range a lead byte allows for its second byte, and how many bytes come after that one.
def lead (x : Nat) : Option Lead :=
  if x < 0xC2 then none
  else if x < 0xE0 then some ⟨0x80,0xBF,0,x - 0xC0⟩
  else if x = 0xE0 then some ⟨0xA0,0xBF,1,0⟩
  else if x = 0xED then some ⟨0x80,0x9F,1,0xD⟩
  else if x < 0xF0 then some ⟨0x80,0xBF,1,x - 0xE0⟩
  else if x = 0xF0 then some ⟨0x90,0xBF,2,0⟩
  else if x < 0xF4 then some ⟨0x80,0xBF,2,x - 0xF0⟩
  else if x = 0xF4 then some ⟨0x80,0x8F,2,4⟩
  else none

def Continuation (b : UInt8) : Prop := 0x80 ≤ b.toNat ∧ b.toNat ≤ 0xBF

instance (b : UInt8) : Decidable (Continuation b) :=
  inferInstanceAs (Decidable (0x80 ≤ b.toNat ∧ b.toNat ≤ 0xBF))

def follow : Nat → Nat → Nat → List UInt8 → Char × Nat
  | 0, acc, used, _ => (Char.ofNat acc,used)
  | _ + 1, _, used, [] => (replacement,used)
  | n + 1, acc, used, b :: rest =>
    if Continuation b then follow n (acc * 64 + (b.toNat - 0x80)) (used + 1) rest
    else (replacement,used)

def decodeOne (b : UInt8) (rest : List UInt8) : Char × Nat :=
  if b.toNat < 0x80 then (Char.ofNat b.toNat,0)
  else match lead b.toNat with
    | none => (replacement,0)
    | some l => match rest with
      | [] => (replacement,0)
      | b₁ :: rest =>
        if l.lo ≤ b₁.toNat ∧ b₁.toNat ≤ l.hi then follow l.more (l.bits * 64 + (b₁.toNat - 0x80)) 1 rest
        else (replacement,0)

-- bytes.decode(errors="replace"): one U+FFFD for each maximal ill-formed part.
def decodeFrom : Nat → List UInt8 → List Char
  | _, [] => []
  | n + 1, _ :: rest => decodeFrom n rest
  | 0, b :: rest => (decodeOne b rest).1 :: decodeFrom (decodeOne b rest).2 rest

def decode (b : List UInt8) : List Char := decodeFrom 0 b

theorem decodeFrom_drop (n : Nat) (b : List UInt8) : decodeFrom n b = decode (b.drop n) := by
  induction b generalizing n with
  | nil => cases n <;> simp [decode,decodeFrom]
  | cons x b ih =>
    cases n with
    | zero => rfl
    | succ n => simpa [decodeFrom] using ih n

theorem decode_cons (x : UInt8) (b : List UInt8) :
    decode (x :: b) = (decodeOne x b).1 :: decode (b.drop (decodeOne x b).2) := by
  rw [← decodeFrom_drop]
  rfl

@[simp] theorem decode_nil : decode [] = [] := rfl

theorem toNat_ofNat {n : Nat} (h : n < 256) : (UInt8.ofNat n).toNat = n := by
  simp [UInt8.toNat_ofNat',Nat.mod_eq_of_lt h]

theorem char_range (c : Char) : c.toNat < 0xD800 ∨ (0xDFFF < c.toNat ∧ c.toNat < 0x110000) := c.valid

def value (acc : Nat) (bs : List UInt8) : Nat := bs.foldl (fun a b => a * 64 + (b.toNat - 0x80)) acc

theorem follow_all (bs rest : List UInt8) (acc used : Nat) (h : ∀ b ∈ bs, Continuation b) :
    follow bs.length acc used (bs ++ rest) = (Char.ofNat (value acc bs),used + bs.length) := by
  induction bs generalizing acc used with
  | nil => rfl
  | cons b bs ih =>
    have hb : Continuation b := h b (by simp)
    have ht := ih (acc * 64 + (b.toNat - 0x80)) (used + 1) (fun x hx => h x (by simp [hx]))
    simp only [List.length_cons,List.cons_append,follow]
    rw [if_pos hb,ht]
    simp only [value,List.foldl_cons]
    rw [show used + 1 + bs.length = used + (bs.length + 1) by omega]

theorem follow_short (n : Nat) (bs : List UInt8) (acc used : Nat) (h : ∀ b ∈ bs, Continuation b)
    (hn : bs.length < n) : follow n acc used bs = (replacement,used + bs.length) := by
  induction bs generalizing n acc used with
  | nil =>
    obtain ⟨m,rfl⟩ : ∃ m, n = m + 1 := ⟨n - 1,by simp only [List.length_nil] at hn; omega⟩
    rfl
  | cons b bs ih =>
    simp only [List.length_cons] at hn
    obtain ⟨m,rfl⟩ : ∃ m, n = m + 1 := ⟨n - 1,by omega⟩
    have hb : Continuation b := h b (by simp)
    simp only [follow]
    rw [if_pos hb,ih m _ _ (fun x hx => h x (by simp [hx])) (by omega)]
    simp only [List.length_cons]
    rw [show used + 1 + bs.length = used + (bs.length + 1) by omega]

structure Sequence (c : Char) (x y : UInt8) (bs : List UInt8) (l : Lead) : Prop where
  bytes : encodeChar c = x :: y :: bs
  high : ¬ x.toNat < 0x80
  lead : lead x.toNat = some l
  second : l.lo ≤ y.toNat ∧ y.toNat ≤ l.hi
  more : bs.length = l.more
  continuations : ∀ b ∈ bs, Continuation b
  value : value (l.bits * 64 + (y.toNat - 0x80)) bs = c.toNat

theorem lead_three {v : Nat} (h : 0x800 ≤ v) (h' : v < 0x10000) (hr : v < 0xD800 ∨ 0xDFFF < v) :
    ∃ l, lead (0xE0 + v / 4096) = some l ∧ l.more = 1 ∧ l.bits = v / 4096 ∧
      l.lo ≤ 0x80 + v / 64 % 64 ∧ 0x80 + v / 64 % 64 ≤ l.hi := by
  unfold lead
  rw [if_neg (by omega),if_neg (by omega)]
  split
  · exact ⟨_,rfl,rfl,by simp only; omega,by simp only; omega,by simp only; omega⟩
  · split
    · exact ⟨_,rfl,rfl,by simp only; omega,by simp only; omega,by simp only; omega⟩
    · rw [if_pos (by omega)]
      exact ⟨_,rfl,rfl,by simp only; omega,by simp only; omega,by simp only; omega⟩

theorem lead_four {v : Nat} (h : 0x10000 ≤ v) (h' : v < 0x110000) :
    ∃ l, lead (0xF0 + v / 262144) = some l ∧ l.more = 2 ∧ l.bits = v / 262144 ∧
      l.lo ≤ 0x80 + v / 4096 % 64 ∧ 0x80 + v / 4096 % 64 ≤ l.hi := by
  unfold lead
  rw [if_neg (by omega),if_neg (by omega),if_neg (by omega),if_neg (by omega),if_neg (by omega)]
  split
  · exact ⟨_,rfl,rfl,by simp only; omega,by simp only; omega,by simp only; omega⟩
  · split
    · exact ⟨_,rfl,rfl,by simp only; omega,by simp only; omega,by simp only; omega⟩
    · rw [if_pos (by omega)]
      exact ⟨_,rfl,rfl,by simp only; omega,by simp only; omega,by simp only; omega⟩

theorem continuation_ofNat {n : Nat} (h : n < 64) : Continuation (.ofNat (0x80 + n)) := by
  unfold Continuation
  rw [toNat_ofNat (by omega)]
  omega

theorem encodeChar_shape (c : Char) :
    (∃ x, encodeChar c = [x] ∧ x.toNat < 0x80 ∧ x.toNat = c.toNat) ∨
      ∃ x y bs l, Sequence c x y bs l := by
  have hr := char_range c
  by_cases h1 : c.toNat < 0x80
  · have e0 := toNat_ofNat (show c.toNat < 256 by omega)
    exact .inl ⟨.ofNat c.toNat,by rw [encodeChar,if_pos h1],by omega,e0⟩
  right
  by_cases h2 : c.toNat < 0x800
  · have e0 := toNat_ofNat (show 0xC0 + c.toNat / 64 < 256 by omega)
    have e1 := toNat_ofNat (show 0x80 + c.toNat % 64 < 256 by omega)
    refine ⟨_,_,[],⟨0x80,0xBF,0,c.toNat / 64⟩,by rw [encodeChar,if_neg h1,if_pos h2],?_,?_,?_,rfl,by simp,?_⟩
    · rw [e0]; omega
    · rw [e0]
      unfold lead
      rw [if_neg (by omega),if_pos (by omega),show 0xC0 + c.toNat / 64 - 0xC0 = c.toNat / 64 by omega]
    · rw [e1]; simp only; omega
    · rw [e1]; simp only [value,List.foldl_nil]; omega
  by_cases h3 : c.toNat < 0x10000
  · have e0 := toNat_ofNat (show 0xE0 + c.toNat / 4096 < 256 by omega)
    have e1 := toNat_ofNat (show 0x80 + c.toNat / 64 % 64 < 256 by omega)
    have e2 := toNat_ofNat (show 0x80 + c.toNat % 64 < 256 by omega)
    obtain ⟨l,hl,hm,hb,hlo,hhi⟩ := lead_three (by omega) h3 (by omega)
    refine ⟨_,_,_,l,by rw [encodeChar,if_neg h1,if_neg h2,if_pos h3],?_,?_,?_,?_,?_,?_⟩
    · rw [e0]; omega
    · rw [e0]; exact hl
    · rw [e1]; exact ⟨hlo,hhi⟩
    · rw [hm]; rfl
    · simpa using continuation_ofNat (show c.toNat % 64 < 64 by omega)
    · rw [e1,hb]
      simp only [value,List.foldl_cons,List.foldl_nil]
      rw [e2]
      omega
  · have e0 := toNat_ofNat (show 0xF0 + c.toNat / 262144 < 256 by omega)
    have e1 := toNat_ofNat (show 0x80 + c.toNat / 4096 % 64 < 256 by omega)
    have e2 := toNat_ofNat (show 0x80 + c.toNat / 64 % 64 < 256 by omega)
    have e3 := toNat_ofNat (show 0x80 + c.toNat % 64 < 256 by omega)
    obtain ⟨l,hl,hm,hb,hlo,hhi⟩ := lead_four (v := c.toNat) (by omega) (by omega)
    refine ⟨_,_,_,l,by rw [encodeChar,if_neg h1,if_neg h2,if_neg h3],?_,?_,?_,?_,?_,?_⟩
    · rw [e0]; omega
    · rw [e0]; exact hl
    · rw [e1]; exact ⟨hlo,hhi⟩
    · rw [hm]; rfl
    · simp only [List.mem_cons,List.not_mem_nil,or_false,forall_eq_or_imp,forall_eq]
      exact ⟨continuation_ofNat (by omega),continuation_ofNat (by omega)⟩
    · rw [e1,hb]
      simp only [value,List.foldl_cons,List.foldl_nil]
      rw [e2,e3]
      omega

theorem decode_encodeChar (c : Char) (rest : List UInt8) :
    decode (encodeChar c ++ rest) = c :: decode rest := by
  rcases encodeChar_shape c with ⟨x,hx,hlt,hv⟩ | ⟨x,y,bs,l,h⟩
  · rw [hx,List.singleton_append,decode_cons,decodeOne,if_pos hlt,hv,Char.ofNat_toNat]
    simp
  · have hf := follow_all bs rest (l.bits * 64 + (y.toNat - 0x80)) 1 h.continuations
    rw [h.value,Char.ofNat_toNat,h.more] at hf
    rw [h.bytes,List.cons_append,List.cons_append,decode_cons]
    simp only [decodeOne,h.lead]
    rw [if_neg h.high,if_pos h.second,hf,← h.more,Nat.add_comm 1]
    simp

theorem decode_encode (t : List Char) : decode (encode t) = t := by
  induction t with
  | nil => rfl
  | cons c t ih => rw [encode,List.flatMap_cons,decode_encodeChar,← encode,ih]

theorem decode_part (c : Char) (n : Nat) (h0 : n ≠ 0) (hn : n < (encodeChar c).length) :
    decode ((encodeChar c).take n) = [replacement] := by
  rcases encodeChar_shape c with ⟨x,hx,-⟩ | ⟨x,y,bs,l,h⟩
  · simp only [hx,List.length_singleton] at hn
    omega
  · obtain ⟨m,rfl⟩ : ∃ m, n = m + 1 := ⟨n - 1,by omega⟩
    rw [h.bytes,List.take_succ_cons,decode_cons]
    rw [h.bytes] at hn
    simp only [List.length_cons] at hn
    simp only [decodeOne,h.lead]
    rw [if_neg h.high]
    cases m with
    | zero => simp
    | succ j =>
      have hj : (bs.take j).length = j := by rw [List.length_take]; omega
      have hf := follow_short l.more (bs.take j) (l.bits * 64 + (y.toNat - 0x80)) 1
        (fun b hb => h.continuations b (List.mem_of_mem_take hb)) (by rw [← h.more]; omega)
      simp only [List.take_succ_cons]
      rw [if_pos h.second,hf,hj,Nat.add_comm 1]
      simp

-- How many whole characters fit into n bytes, and whether byte n falls inside a character.
def fits : Nat → List Char → Nat
  | _, [] => 0
  | n, c :: t => if (encodeChar c).length ≤ n then fits (n - (encodeChar c).length) t + 1 else 0

def splits : Nat → List Char → Bool
  | _, [] => false
  | n, c :: t =>
    if (encodeChar c).length ≤ n then splits (n - (encodeChar c).length) t else decide (n ≠ 0)

theorem decode_take_encode (n : Nat) (t : List Char) :
    decode ((encode t).take n) = t.take (fits n t) ++ if splits n t then [replacement] else [] := by
  induction t generalizing n with
  | nil => simp [encode,fits,splits]
  | cons c t ih =>
    rw [encode,List.flatMap_cons,← encode,List.take_append]
    by_cases hc : (encodeChar c).length ≤ n
    · simp only [fits,splits,if_pos hc]
      rw [List.take_of_length_le hc,decode_encodeChar,ih]
      rfl
    · simp only [fits,splits,if_neg hc]
      rw [show n - (encodeChar c).length = 0 by omega,List.take_zero,List.append_nil]
      by_cases h0 : n = 0
      · simp [h0]
      · rw [decode_part c n h0 (by omega)]
        simp [h0]

end Utf8
