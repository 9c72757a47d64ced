import Mathlib.Data.List.Nodup

namespace Url

-- A dict: its items in the order in which their keys were first set.
structure Dict (K V : Type) where
  items : List (K × V)
  nodup : (items.map Prod.fst).Nodup

namespace Dict

variable {K V : Type} [DecidableEq K]

def putItem (k : K) (v : V) : List (K × V) → List (K × V)
  | [] => [(k,v)]
  | p :: d => if p.1 = k then (k,v) :: d else p :: putItem k v d

theorem putItem_keys (k : K) (v : V) (d : List (K × V)) :
    (putItem k v d).map Prod.fst = if k ∈ d.map Prod.fst then d.map Prod.fst else d.map Prod.fst ++ [k] := by
  induction d with
  | nil => simp [putItem]
  | cons p d ih =>
    by_cases hp : p.1 = k
    · simp [putItem,hp]
    · have hk : k ≠ p.1 := Ne.symm hp
      simp only [putItem,if_neg hp,List.map_cons,ih,List.mem_cons,hk,false_or]
      split <;> simp

theorem putItem_nodup {k : K} {v : V} {d : List (K × V)} (h : (d.map Prod.fst).Nodup) : ((putItem k v d).map Prod.fst).Nodup := by
  rw [putItem_keys]
  split
  · exact h
  · rename_i hk
    exact List.nodup_append.mpr ⟨h,List.nodup_singleton k,fun x hx y hy => by
      rw [List.mem_singleton.mp hy]
      rintro rfl
      exact hk hx⟩

def empty : Dict K V := ⟨[],List.nodup_nil⟩

def put (k : K) (v : V) (d : Dict K V) : Dict K V := ⟨putItem k v d.items,putItem_nodup d.nodup⟩

def pop (k : K) (d : Dict K V) : Dict K V :=
  ⟨d.items.filter (fun p => p.1 ≠ k),d.nodup.sublist ((List.filter_sublist).map Prod.fst)⟩

def get (k : K) (d : Dict K V) : Option V := d.items.lookup k

def ofItems (items : List (K × V)) : Dict K V := items.foldl (fun d p => d.put p.1 p.2) empty

variable {k k' : K} {v : V} {d : Dict K V}

omit [DecidableEq K] in
theorem ext {d d' : Dict K V} (h : d.items = d'.items) : d = d' := by
  cases d
  cases d'
  cases h
  rfl

@[simp] theorem get_empty : (empty : Dict K V).get k = none := rfl

end Dict

end Url
