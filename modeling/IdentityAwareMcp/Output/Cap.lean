import IdentityAwareMcp.Model.Command
import IdentityAwareMcp.Utf8.Cut

namespace IdentityAwareMcp

section Bound

variable (maxOutputBytes : Nat)

theorem capPoints_scalars (text : Text) : capPoints maxOutputBytes (text.map .scalar) =
    ((cap maxOutputBytes text).1.map .scalar,(cap maxOutputBytes text).2) := by
  simp only [capPoints,cap,Utf8.encodeReplace_scalars]
  split <;> rfl

theorem worker_cap_length (raw : List UInt8) : (Utf8.encode (Worker.cap maxOutputBytes raw).1).length =
    (raw.take maxOutputBytes).length + Utf8.growth (raw.take maxOutputBytes) := by
  rw [Worker.cap]
  split
  · rename_i h
    rw [List.take_of_length_le h,Utf8.encode_decode_length]
  · exact Utf8.encode_decode_length _

theorem cut_length {maxOutputBytes : Nat} (text : Text) (h : maxOutputBytes < (Utf8.encode text).length) :
    (Utf8.encode (Utf8.decode ((Utf8.encode text).take maxOutputBytes))).length + Utf8.overhang maxOutputBytes text =
      maxOutputBytes + if Utf8.overhang maxOutputBytes text = 0 then 0 else 3 := by
  have hle := Utf8.fits_le maxOutputBytes text
  rw [Utf8.decode_take_encode,Utf8.splits_overhang h,Utf8.encode_append,List.length_append]
  by_cases ho : Utf8.overhang maxOutputBytes text = 0
  · simp only [ho,ne_eq,not_true,decide_false,Bool.false_eq_true,if_false,if_true,Utf8.encode_nil,List.length_nil]
    simp only [Utf8.overhang] at ho
    omega
  · have h3 : (Utf8.encode [Utf8.replacement]).length = 3 := by decide
    simp only [ho,ne_eq,not_false_eq_true,decide_true,if_true,if_false,h3]
    simp only [Utf8.overhang]
    omega

-- A replacement takes three bytes, whatever it stands for.
theorem output_bounded :
    (∀ raw, (Utf8.encode (Worker.cap maxOutputBytes raw).1).length ≤ maxOutputBytes ↔
      (raw.take maxOutputBytes).length + Utf8.growth (raw.take maxOutputBytes) ≤ maxOutputBytes) ∧
    ∀ text, (Utf8.encodeReplace (capPoints maxOutputBytes text).1).length ≤ maxOutputBytes ↔
      (Utf8.encodeReplace text).length ≤ maxOutputBytes ∨
        Utf8.overhang maxOutputBytes (text.map Utf8.Point.shown) = 0 ∨
        3 ≤ Utf8.overhang maxOutputBytes (text.map Utf8.Point.shown) := by
  refine ⟨fun raw => by rw [worker_cap_length],fun text => ?_⟩
  by_cases h : (Utf8.encodeReplace text).length ≤ maxOutputBytes
  · have hcap : capPoints maxOutputBytes text = (text,false) := if_pos h
    simp only [hcap,h,true_or]
  · have hcap : capPoints maxOutputBytes text =
        ((Utf8.decode ((Utf8.encodeReplace text).take maxOutputBytes)).map .scalar,true) := if_neg h
    have hcut := cut_length (text.map Utf8.Point.shown) (Utf8.encodeReplace_shown text ▸ Nat.not_le.mp h)
    rw [hcap,Utf8.encodeReplace_scalars]
    rw [← Utf8.encodeReplace_shown] at hcut
    split at hcut <;> omega

-- A byte that is not UTF-8, and a character of two bytes cut after the first.
theorem output_unbounded :
    ¬ (Utf8.encode (Worker.cap 1 [0xFF]).1).length ≤ 1 ∧
      ¬ (Utf8.encodeReplace (capPoints 1 [.scalar 'é']).1).length ≤ 1 := by decide

end Bound

section Agreement

variable (maxOutputBytes : Nat)

-- Both sides cut a valid stream at the same byte and show the same characters of it.
theorem caps_agree (b : List UInt8) (hb : Utf8.Valid b) :
    Worker.cap maxOutputBytes b = cap maxOutputBytes (Utf8.decode b) ∧
    (Worker.cap maxOutputBytes b).2 = decide (maxOutputBytes < b.length) ∧
    (b.length ≤ maxOutputBytes → (Worker.cap maxOutputBytes b).1 = Utf8.decode b) ∧
    (maxOutputBytes < b.length → ∃ k, (Utf8.encode ((Utf8.decode b).take k)).length ≤ maxOutputBytes ∧
      (∀ j ≤ (Utf8.decode b).length, (Utf8.encode ((Utf8.decode b).take j)).length ≤ maxOutputBytes → j ≤ k) ∧
      (Worker.cap maxOutputBytes b).1 = (Utf8.decode b).take k ++
        if (Utf8.encode ((Utf8.decode b).take k)).length = maxOutputBytes then [] else [Utf8.replacement]) := by
  have hcode : Utf8.encode (Utf8.decode b) = b := hb
  refine ⟨?_,?_,?_,?_⟩
  · simp only [Worker.cap,cap,hcode]
  · rw [Worker.cap]
    split
    · rename_i h
      exact (decide_eq_false (Nat.not_lt.mpr h)).symm
    · rename_i h
      exact (decide_eq_true (Nat.not_le.mp h)).symm
  · intro h
    rw [Worker.cap,if_pos h]
  · intro h
    have hle := Utf8.fits_le maxOutputBytes (Utf8.decode b)
    have hcut := Utf8.decode_take_encode maxOutputBytes (Utf8.decode b)
    rw [Utf8.splits_overhang (hcode.symm ▸ h),hcode] at hcut
    refine ⟨Utf8.fits maxOutputBytes (Utf8.decode b),hle,fun j hj hfit => Utf8.fits_longest hj hfit,?_⟩
    rw [Worker.cap,if_neg (Nat.not_le.mpr h),hcut,Utf8.overhang]
    by_cases he : (Utf8.encode ((Utf8.decode b).take (Utf8.fits maxOutputBytes (Utf8.decode b)))).length = maxOutputBytes
    · simp [he]
    · have hne : maxOutputBytes - (Utf8.encode ((Utf8.decode b).take (Utf8.fits maxOutputBytes (Utf8.decode b)))).length ≠ 0 := by
        omega
      simp only [he,hne,ne_eq,not_false_eq_true,decide_true,if_true,if_false]

theorem caps_agree_cut : Utf8.Valid (Utf8.encode ['a','é','b']) ∧
    Worker.cap 2 (Utf8.encode ['a','é','b']) = cap 2 (Utf8.decode (Utf8.encode ['a','é','b'])) := by
  have hvalid : Utf8.Valid (Utf8.encode ['a','é','b']) := by decide
  exact ⟨hvalid,(caps_agree 2 _ hvalid).1⟩

end Agreement

end IdentityAwareMcp
