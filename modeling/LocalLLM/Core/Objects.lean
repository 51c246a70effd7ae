/-
The members of JSON objects: which ones an object has that was put together,
and that objects stay sorted by key. A sorted object is determined by its
lookups, and putting it together again gives the object itself.
-/
import LocalLLM.Core.Json

namespace LocalLLM.Json

theorem contains_eq (o : JsonObject) (key : QString) :
    contains o key = (lookup o key).isSome := by
  unfold contains lookup
  induction o with
  | nil => rfl
  | cons m o ih =>
      rw [List.any_cons, List.find?_cons]
      cases hkey : m.1 == key with
      | true => rfl
      | false => simpa using ih

theorem mem_insert {o : JsonObject} {key : QString} {value : Json}
    {m : QString × Json} (hm : m ∈ insert o key value) :
    m = (key, value) ∨ m ∈ o := by
  unfold insert at hm
  rcases List.mem_append.1 hm with hm | hm
  · exact Or.inr ((List.takeWhile_prefix _).subset hm)
  · rcases List.mem_cons.1 hm with hm | hm
    · exact Or.inl hm
    · exact Or.inr ((List.dropWhile_suffix _).subset (List.mem_filter.1 hm).1)

theorem mem_ofMembers {members : List (QString × Json)} {m : QString × Json}
    (hm : m ∈ ofMembers members) : m ∈ members := by
  suffices h : ∀ o : JsonObject,
      m ∈ members.foldl (fun o m => insert o m.1 m.2) o →
      m ∈ members ∨ m ∈ o by
    rcases h [] hm with hm | hm
    · exact hm
    · cases hm
  clear hm
  induction members with
  | nil => exact fun o hm => Or.inr hm
  | cons first members ih =>
      intro o hm
      rcases ih _ hm with hm | hm
      · exact Or.inl (List.mem_cons_of_mem _ hm)
      · rcases mem_insert hm with hm | hm
        · exact Or.inl (hm ▸ List.mem_cons_self)
        · exact Or.inr hm

/-- A member is there under every key of the list it was put together from. -/
theorem contains_ofMembers (members : List (QString × Json)) (key : QString) :
    contains (ofMembers members) key = contains members key := by
  rw [contains_eq, lookup_ofMembers, ← contains_eq]
  unfold contains
  rw [List.any_reverse]

/-- With each key once, every member is found under its key. -/
theorem lookup_of_mem {o : List (QString × Json)}
    (hkeys : (o.map Prod.fst).Nodup)
    {m : QString × Json} (hm : m ∈ o) : lookup o m.1 = some m.2 := by
  induction o with
  | nil => cases hm
  | cons first o ih =>
      rw [List.map_cons, List.nodup_cons] at hkeys
      rw [lookup_cons]
      rcases List.mem_cons.1 hm with rfl | hm
      · rw [if_pos rfl]
      · rw [if_neg fun h => hkeys.1 (List.mem_map.2 ⟨m, hm, h.symm⟩)]
        exact ih hkeys.2 hm

theorem mem_of_lookup {o : JsonObject} {key : QString} {v : Json}
    (h : lookup o key = some v) : (key, v) ∈ o := by
  unfold lookup at h
  obtain ⟨m, hm, rfl⟩ := Option.map_eq_some_iff.1 h
  have hkey : m.1 = key := by
    simpa using List.find?_some hm
  rw [← hkey]
  exact List.mem_of_find?_eq_some hm

/-- With each key once, an object has all the members it is put
together from. -/
theorem forall_ofMembers {members : List (QString × Json)}
    (hkeys : (members.map Prod.fst).Nodup) {P : QString × Json → Prop} :
    (∀ m ∈ ofMembers members, P m) ↔ ∀ m ∈ members, P m := by
  constructor
  · intro h m hm
    refine h m (mem_of_lookup ?_)
    rw [lookup_ofMembers]
    refine lookup_of_mem ?_ (List.mem_reverse.2 hm)
    rw [List.map_reverse, List.nodup_reverse]
    exact hkeys
  · exact fun h m hm => h m (mem_ofMembers hm)

-- ============================================================= sorted objects

/-- The members are sorted by key, each key once. -/
def Sorted (o : JsonObject) :
    Prop := o.Pairwise fun a b => compare a.1 b.1 = .lt

theorem sorted_nil : Sorted [] := List.Pairwise.nil

theorem Sorted.filter {o : JsonObject} (h : Sorted o)
    (p : QString × Json → Bool) :
    Sorted (o.filter p) := List.Pairwise.filter p h

theorem not_lt_self (key : QString) : compare key key ≠ .lt := by
  rw [Std.compare_self]
  decide

/-- What comes after the place of a key has a greater one, but
for the key itself. -/
theorem Sorted.after {o : JsonObject} (h : Sorted o) (key : QString) :
    ∀ m ∈ (o.dropWhile fun m => compare m.1 key == .lt).filter
      fun m => m.1 != key,
      compare key m.1 = .lt := by
  have hge : ∀ m ∈ o.dropWhile fun m => compare m.1 key == .lt,
      compare m.1 key ≠ .lt := by
    induction o with
    | nil => exact List.forall_mem_nil _
    | cons first o ih =>
        obtain ⟨hfirst, ho⟩ := List.pairwise_cons.1 h
        by_cases hlt : compare first.1 key = .lt
        · rw [List.dropWhile_cons, if_pos (beq_iff_eq.2 hlt)]
          exact ih ho
        · rw [List.dropWhile_cons, if_neg (by simpa using hlt)]
          intro m hm
          rcases List.mem_cons.1 hm with rfl | hm
          · exact hlt
          · exact fun hm' => hlt (Std.TransCmp.lt_trans (hfirst m hm) hm')
  intro m hm
  obtain ⟨hm, hne⟩ := List.mem_filter.1 hm
  have hne : m.1 ≠ key := by simpa using hne
  cases hcmp : compare m.1 key with
  | lt => exact absurd hcmp (hge m hm)
  | eq => exact absurd (Std.LawfulEqCmp.eq_of_compare hcmp) hne
  | gt => exact Std.OrientedCmp.lt_of_gt hcmp

theorem Sorted.insert {o : JsonObject} (h : Sorted o) (key : QString)
    (value : Json) : Sorted (Json.insert o key value) := by
  have hbefore : ∀ m ∈ o.takeWhile fun m => compare m.1 key == .lt,
      compare m.1 key = .lt := by
    intro m hm
    exact beq_iff_eq.1 (List.mem_takeWhile_imp
      (p := fun m : QString × Json => compare m.1 key == .lt) hm)
  unfold Sorted Json.insert
  rw [List.pairwise_append]
  refine ⟨List.Pairwise.sublist (List.takeWhile_sublist _) h, ?_, ?_⟩
  · rw [List.pairwise_cons]
    exact ⟨h.after key,
      (List.Pairwise.sublist (List.dropWhile_sublist _) h).filter _⟩
  · intro a ha b hb
    rcases List.mem_cons.1 hb with rfl | hb
    · exact hbefore a ha
    · exact Std.TransCmp.lt_trans (hbefore a ha) (h.after key b hb)

theorem sorted_ofMembers (members : List (QString × Json)) :
    Sorted (ofMembers members) := by
  suffices h : ∀ o : JsonObject, Sorted o →
      Sorted (members.foldl (fun o m => Json.insert o m.1 m.2) o) by
    exact h [] sorted_nil
  induction members with
  | nil => exact fun _ ho => ho
  | cons m members ih => exact fun o ho => ih _ (ho.insert m.1 m.2)

/-- The key of a sorted object is in one place. -/
theorem Sorted.lookup_mem {o : JsonObject} (h : Sorted o) {m : QString × Json}
    (hm : m ∈ o) : lookup o m.1 = some m.2 := by
  refine lookup_of_mem ?_ hm
  unfold List.Nodup
  rw [List.pairwise_map]
  refine List.Pairwise.imp (fun {a b} hlt heq => ?_) h
  rw [heq] at hlt
  exact not_lt_self b.1 hlt

/-- Sorted objects with the same lookups are the same. -/
theorem Sorted.ext {o p : JsonObject} (ho : Sorted o) (hp : Sorted p)
    (h : ∀ key, lookup o key = lookup p key) : o = p := by
  have hmem : ∀ m, m ∈ o ↔ m ∈ p := by
    intro m
    constructor
    · intro hm
      exact mem_of_lookup ((h m.1).symm.trans (ho.lookup_mem hm))
    · intro hm
      exact mem_of_lookup ((h m.1).trans (hp.lookup_mem hm))
  have hnodup : ∀ {q : JsonObject}, Sorted q → q.Nodup := by
    intro q hq
    refine List.Pairwise.imp (fun {a b} hlt heq => ?_) hq
    exact not_lt_self b.1 (heq ▸ hlt)
  have hperm := (List.perm_ext_iff_of_nodup (hnodup ho) (hnodup hp)).2 hmem
  refine hperm.eq_of_pairwise (fun a b _ _ hab hba => ?_) ho hp
  exact absurd (Std.TransCmp.lt_trans hab hba) (not_lt_self a.1)

/-- A sorted object, put together from its members. -/
theorem Sorted.ofMembers_self {o : JsonObject} (h : Sorted o) :
    ofMembers o = o := by
  refine (sorted_ofMembers o).ext h fun key => ?_
  rw [lookup_ofMembers]
  cases hv : lookup o.reverse key with
  | some v => exact (h.lookup_mem (List.mem_reverse.1 (mem_of_lookup hv))).symm
  | none =>
      have hnone : contains o key = false := by
        unfold contains
        rw [← List.any_reverse]
        show contains o.reverse key = false
        rw [contains_eq, hv]
        rfl
      rw [contains_eq, Option.isSome_eq_false_iff,
        Option.isNone_iff_eq_none] at hnone
      exact hnone.symm

end LocalLLM.Json
