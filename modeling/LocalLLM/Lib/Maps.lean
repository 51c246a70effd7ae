/-
Facts about finite ordered maps that `Std.ExtTreeMap` does not carry:
lookups with the key comparison already read as an equation, and sums
over the values of a map. A list of records that is searched by a key is
a map too where no two of its records share the key (`find?_key`).

`total f m` is the sum of `f` over the values of `m`. An insertion of a
new key adds one summand (`total_insert`), an erasure takes one away
(`total_erase`), an update in place exchanges one (`total_insert_of_some`),
and a filter splits the sum (`total_filter`).
-/
import Mathlib

namespace LocalLLM.Maps

open Std

set_option linter.unusedSectionVars false

variable {κ ν : Type} [Ord κ] [TransOrd κ] [LawfulEqOrd κ] [DecidableEq κ]

-- ================================================================= lookups

/-- A search by a key finds the record that has it. -/
theorem find?_key {α β : Type} [BEq β] [LawfulBEq β] {l : List α} {f : α → β}
    (hkeys : ∀ a ∈ l, ∀ b ∈ l, f a = f b → a = b) {k : β} {a : α} :
    (l.find? fun b => f b == k) = some a ↔ a ∈ l ∧ f a = k := by
  refine ⟨fun hfound => ⟨List.mem_of_find?_eq_some hfound, by
    simpa using List.find?_some hfound⟩, fun ⟨hmem, hkey⟩ => ?_⟩
  cases hfound : l.find? fun b => f b == k with
  | none =>
      rw [List.find?_eq_none] at hfound
      simpa [hkey] using hfound a hmem
  | some b =>
      have hb : f b = k := by simpa using List.find?_some hfound
      rw [hkeys b (List.mem_of_find?_eq_some hfound) a hmem
        (hb.trans hkey.symm)]

/-- What a map holds behind an insertion: the new value under its key, and all
others as they were. -/
theorem find_insert (m : ExtTreeMap κ ν) (k a : κ) (v : ν) :
    (m.insert k v)[a]? = if k = a then some v else m[a]? := by
  rw [ExtTreeMap.getElem?_insert]
  simp only [Std.compare_eq_iff_eq]

@[simp] theorem find_insert_self (m : ExtTreeMap κ ν) (k : κ) (v : ν) :
    (m.insert k v)[k]? = some v := by
  rw [find_insert, if_pos rfl]

theorem find_insert_ne (m : ExtTreeMap κ ν) {k a : κ} (v : ν) (h : k ≠ a) :
    (m.insert k v)[a]? = m[a]? := by
  rw [find_insert, if_neg h]

/-- What a map holds behind a removal. -/
theorem find_erase (m : ExtTreeMap κ ν) (k a : κ) :
    (m.erase k)[a]? = if k = a then none else m[a]? := by
  rw [ExtTreeMap.getElem?_erase]
  simp only [Std.compare_eq_iff_eq]

@[simp] theorem find_erase_self (m : ExtTreeMap κ ν) (k : κ) :
    (m.erase k)[k]? = none := by
  rw [find_erase, if_pos rfl]

theorem find_erase_ne (m : ExtTreeMap κ ν) {k a : κ} (h : k ≠ a) :
    (m.erase k)[a]? = m[a]? := by
  rw [find_erase, if_neg h]

/-- Filtering looks at each entry by itself. -/
theorem find_filter (m : ExtTreeMap κ ν) (f : κ → ν → Bool) (a : κ) :
    (m.filter f)[a]? = m[a]?.filter (f a) := by
  rw [ExtTreeMap.getElem?_filter']

/-- Membership, read off the lookup. -/
theorem mem_iff_find (m : ExtTreeMap κ ν) (k : κ) :
    k ∈ m ↔ ∃ v, m[k]? = some v := by
  rw [ExtTreeMap.mem_iff_isSome_getElem?, Option.isSome_iff_exists]

theorem not_mem_iff_find (m : ExtTreeMap κ ν) (k : κ) :
    k ∉ m ↔ m[k]? = none := by
  rw [ExtTreeMap.mem_iff_isSome_getElem?, Option.not_isSome_iff_eq_none]

/-- Maps are equal when all their lookups are. -/
theorem ext_find {m m' : ExtTreeMap κ ν} (h : ∀ k : κ, m[k]? = m'[k]?) :
    m = m' :=
  ExtTreeMap.ext_getElem? fun k => h k

/-- The last of two insertions under a key counts. -/
@[simp] theorem insert_insert (m : ExtTreeMap κ ν) (k : κ) (v w : ν) :
    (m.insert k v).insert k w = m.insert k w := by
  refine ext_find fun a => ?_
  rw [find_insert, find_insert, find_insert]
  by_cases hk : k = a
  · rw [if_pos hk, if_pos hk]
  · rw [if_neg hk, if_neg hk, if_neg hk]

/-- Writing back what is there changes nothing. -/
theorem insert_of_find {m : ExtTreeMap κ ν} {k : κ} {v : ν}
    (h : m[k]? = some v) : m.insert k v = m := by
  refine ext_find fun a => ?_
  rw [find_insert]
  by_cases hk : k = a
  · rw [if_pos hk, ← hk, h]
  · rw [if_neg hk]

/-- Where the key is new, inserting if new is inserting. -/
theorem find_insertIfNew (m : ExtTreeMap κ ν) {k : κ} (a : κ) (v : ν)
    (h : m[k]? = none) : (m.insertIfNew k v)[a]? = if k = a then some v
      else m[a]? := by
  rw [ExtTreeMap.getElem?_insertIfNew]
  simp only [Std.compare_eq_iff_eq, not_mem_iff_find]
  by_cases hk : k = a
  · rw [if_pos ⟨hk, h⟩, if_pos hk]
  · rw [if_neg (fun hp => hk hp.1), if_neg hk]

/-- At a new key, inserting and inserting if new are the same. -/
theorem insertIfNew_of_none (m : ExtTreeMap κ ν) {k : κ} (v : ν)
    (h : m[k]? = none) : m.insertIfNew k v = m.insert k v :=
  ext_find fun a => by rw [find_insertIfNew m a v h, find_insert]

/-- Replacing a value leaves the number of entries as it is. -/
theorem size_insert_of_some {m : ExtTreeMap κ ν} {k : κ} {w : ν} (v : ν)
    (h : m[k]? = some w) : (m.insert k v).size = m.size := by
  have hmem := (mem_iff_find m k).2 ⟨w, h⟩
  rw [ExtTreeMap.size_insert, if_pos (ExtTreeMap.contains_iff_mem.2 hmem)]

theorem size_insert_of_none {m : ExtTreeMap κ ν} {k : κ} (v : ν)
    (h : m[k]? = none) : (m.insert k v).size = m.size + 1 := by
  have hmem := (not_mem_iff_find m k).2 h
  rw [ExtTreeMap.size_insert,
    if_neg (fun hc => hmem (ExtTreeMap.contains_iff_mem.1 hc))]

/-- Removing an entry that is there takes one away. -/
theorem size_erase_of_some {m : ExtTreeMap κ ν} {k : κ} {w : ν}
    (h : m[k]? = some w) : (m.erase k).size + 1 = m.size := by
  have hmem := (mem_iff_find m k).2 ⟨w, h⟩
  have hne : m.size ≠ 0 := by
    intro h0
    rw [← ExtTreeMap.eq_empty_iff_size_eq_zero] at h0
    rw [h0] at h
    simp at h
  rw [ExtTreeMap.size_erase, if_pos (ExtTreeMap.contains_iff_mem.2 hmem)]
  omega

-- ================================================================= listings

/-- No entry is listed twice, since no key is. -/
theorem nodup_toList (m : ExtTreeMap κ ν) : m.toList.Nodup := by
  have h : (m.toList.map Prod.fst).Nodup := by
    rw [ExtTreeMap.map_fst_toList_eq_keys]
    exact ExtTreeMap.nodup_keys
  exact h.of_map

/-- Erasing drops exactly the erased key from the listing. -/
theorem toList_erase (m : ExtTreeMap κ ν) (k : κ) :
    (m.erase k).toList = m.toList.filter fun p => p.1 ≠ k := by
  have h : m.erase k = m.filter fun a _ => a ≠ k := by
    refine ext_find fun a => ?_
    rw [find_erase, find_filter]
    by_cases hk : k = a
    · subst hk
      cases m[k]? <;> simp [Option.filter]
    · have hk' : a ≠ k := fun h => hk h.symm
      cases m[a]? <;> simp [hk, hk', Option.filter]
  rw [h, ExtTreeMap.toList_filter]

/-- The listing after an insertion: the new pair, and the old pairs at
other keys. -/
theorem toList_insert_perm (m : ExtTreeMap κ ν) (k : κ) (v : ν) :
    (m.insert k v).toList.Perm
      ((k, v) :: m.toList.filter fun p => p.1 ≠ k) := by
  have hne : (k, v) ∉ m.toList.filter fun p => p.1 ≠ k := by
    intro h
    simp at h
  refine (List.perm_ext_iff_of_nodup (nodup_toList _)
    (List.nodup_cons.2 ⟨hne, (nodup_toList m).filter _⟩)).2 fun p => ?_
  obtain ⟨a, w⟩ := p
  rw [ExtTreeMap.mem_toList_iff_getElem?_eq_some, find_insert,
    List.mem_cons, List.mem_filter,
    ExtTreeMap.mem_toList_iff_getElem?_eq_some]
  by_cases hk : k = a
  · subst hk
    simp [eq_comm]
  · have hk' : a ≠ k := fun h => hk h.symm
    simp [hk, hk']

/-- What a listing leaves of a key, put together again. -/
theorem find_foldl_insert (l : List (κ × ν)) (k : κ) :
    ∀ m : ExtTreeMap κ ν, (∀ e ∈ l, e.1 ≠ k) →
      (l.foldl (fun m e => m.insert e.1 e.2) m)[k]? = m[k]? := by
  induction l with
  | nil => exact fun _ _ => rfl
  | cons e l ih =>
      intro m hne
      rw [List.forall_mem_cons] at hne
      rw [List.foldl_cons, ih _ hne.2, find_insert_ne m e.2 hne.1]

/-- A map is put together again from its listing. -/
theorem foldl_insert_toList (m : ExtTreeMap κ ν) :
    m.toList.foldl (fun m e => m.insert e.1 e.2) ∅ = m := by
  have hinsert : ∀ l : List (κ × ν), (l.map Prod.fst).Nodup → ∀ e ∈ l,
      ∀ m : ExtTreeMap κ ν, (l.foldl (fun m e => m.insert e.1 e.2) m)[e.1]?
        = some e.2 := by
    intro l
    induction l with
    | nil => exact fun _ _ he => nomatch he
    | cons first l ih =>
        intro hnodup e he m
        rw [List.map_cons, List.nodup_cons] at hnodup
        rw [List.foldl_cons]
        rcases List.mem_cons.1 he with rfl | he
        · have hne : ∀ e' ∈ l, e'.1 ≠ e.1 := by
            intro e' he' h
            exact hnodup.1 (List.mem_map.2 ⟨e', he', h⟩)
          rw [find_foldl_insert l e.1 _ hne, find_insert_self]
        · exact ih hnodup.2 e he _
  refine ext_find fun k => ?_
  cases hv : m[k]? with
  | some v =>
      have hmem := ExtTreeMap.mem_toList_iff_getElem?_eq_some.2 hv
      refine hinsert _ ?_ _ hmem ∅
      rw [ExtTreeMap.map_fst_toList_eq_keys]
      exact ExtTreeMap.nodup_keys
  | none =>
      rw [find_foldl_insert _ _ _ fun e he h => ?_, ExtTreeMap.getElem?_empty]
      rw [← h, ExtTreeMap.mem_toList_iff_getElem?_eq_some.1 he] at hv
      cases hv

-- ===================================================================== sums

/-- The sum of `f` over the values of a map. -/
def total (f : ν → Nat) (m : ExtTreeMap κ ν) : Nat :=
  (m.toList.map fun p => f p.2).sum

variable {f : ν → Nat}

@[simp] theorem total_empty : total f (∅ : ExtTreeMap κ ν) = 0 := by
  unfold total
  rw [ExtTreeMap.toList_eq_nil_iff.2 rfl]
  rfl

/-- A filter splits a sum in two. -/
theorem sum_filter_add (p : κ × ν → Bool) (l : List (κ × ν)) :
    ((l.filter p).map fun x => f x.2).sum
        + ((l.filter fun x => !p x).map fun x => f x.2).sum
      = (l.map fun x => f x.2).sum := by
  induction l with
  | nil => rfl
  | cons a l ih =>
      by_cases h : p a
      · simp only [List.filter_cons, h, if_true, List.map_cons,
          List.sum_cons, Bool.not_true, Bool.false_eq_true, if_false]
        omega
      · simp only [List.filter_cons, h, if_false, List.map_cons,
          List.sum_cons, Bool.not_false, if_true, Bool.false_eq_true]
        omega

/-- A sum splits along any test on the entries. -/
theorem total_filter (m : ExtTreeMap κ ν) (p : κ → ν → Bool) :
    total f (m.filter p) + total f (m.filter fun k v => !p k v)
      = total f m := by
  unfold total
  rw [ExtTreeMap.toList_filter, ExtTreeMap.toList_filter]
  exact sum_filter_add (fun x => p x.1 x.2) m.toList

/-- The listing around a key that is present. -/
theorem toList_perm_of_find {m : ExtTreeMap κ ν} {k : κ} {v : ν}
    (h : m[k]? = some v) : m.toList.Perm ((k, v) :: (m.erase k).toList) := by
  have hperm := toList_insert_perm m k v
  rwa [insert_of_find h, ← toList_erase] at hperm

/-- Removing an entry takes exactly its share out of the sum. It is stated as
an addition, for the shares may be natural numbers. -/
theorem total_erase {m : ExtTreeMap κ ν} {k : κ} {v : ν}
    (h : m[k]? = some v) : total f (m.erase k) + f v = total f m := by
  have hperm := (toList_perm_of_find h).map fun p => f p.2
  have hsum := hperm.sum_eq
  simp only [List.map_cons, List.sum_cons] at hsum
  unfold total
  omega

theorem erase_of_none {m : ExtTreeMap κ ν} {k : κ}
    (h : m[k]? = none) : m.erase k = m := by
  refine ext_find fun a => ?_
  rw [find_erase]
  by_cases hk : k = a
  · subst hk
    rw [if_pos rfl, h]
  · rw [if_neg hk]

/-- What was put in can be taken out again. -/
theorem erase_insert {m : ExtTreeMap κ ν} {k : κ} (v : ν)
    (h : m[k]? = none) : (m.insert k v).erase k = m := by
  refine ext_find fun a => ?_
  rw [find_erase, find_insert]
  by_cases hk : k = a
  · rw [if_pos hk, ← hk, h]
  · rw [if_neg hk, if_neg hk]

/-- Inserting under a new key adds exactly the share of the new entry. -/
theorem total_insert {m : ExtTreeMap κ ν} {k : κ} (v : ν)
    (h : m[k]? = none) : total f (m.insert k v) = total f m + f v := by
  have hsum := ((toList_insert_perm m k v).map fun p => f p.2).sum_eq
  rw [← toList_erase, erase_of_none h] at hsum
  simp only [List.map_cons, List.sum_cons] at hsum
  unfold total
  omega

/-- Replacing a value exchanges its share for the old one's. -/
theorem total_insert_of_some {m : ExtTreeMap κ ν} {k : κ} {w : ν} (v : ν)
    (h : m[k]? = some w) : total f (m.insert k v) + f w = total f m + f v := by
  have hsum := ((toList_insert_perm m k v).map fun p => f p.2).sum_eq
  have herase := total_erase (f := f) h
  rw [← toList_erase] at hsum
  simp only [List.map_cons, List.sum_cons] at hsum
  unfold total at herase ⊢
  omega

/-- A sum of values that are all at least `c` bounds the number of keys. -/
theorem size_mul_le_total {m : ExtTreeMap κ ν} {c : Nat}
    (h : ∀ (k : κ) (v : ν), m[k]? = some v → c ≤ f v) :
    m.size * c ≤ total f m := by
  have key : ∀ l : List (κ × ν), (∀ p ∈ l, c ≤ f p.2) →
      l.length * c ≤ (l.map fun p => f p.2).sum := by
    intro l
    induction l with
    | nil => intro _; simp
    | cons a l ih =>
        intro hl
        have ha := hl a (List.mem_cons_self ..)
        have hrest := ih fun p hp => hl p (List.mem_cons_of_mem _ hp)
        rw [List.length_cons, List.map_cons, List.sum_cons, Nat.succ_mul]
        omega
  have hkey := key m.toList fun p hp => h p.1 p.2
    (ExtTreeMap.mem_toList_iff_getElem?_eq_some.1 hp)
  rwa [ExtTreeMap.length_toList] at hkey

end LocalLLM.Maps
