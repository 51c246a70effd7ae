/-
The validator never misses in its tables, and always ends.

# What a check leaves behind

`Impl.checkSchema` compiles the patterns it comes across. It is compared
with the `checkSchema` of `Parameters.lean` (`Tracks`): it throws what that
one throws, forgets no pattern, and where it returns, the schema passes once
more under the reading that only compiled patterns are valid
(`Patterns.within`). So "was checked" under that reading says at once that
everything the validator can reach has been visited, and the lemmas about
checked schemas apply as they stand.

# What the validator finds

By induction on the levels that are left, `Impl.accepts` on a checked schema
is the plain validator: no lookup misses, and the counter ends the recursion
however the groups refer to each other (`accepts_eq`).
-/
import LocalLLM.Core.ParameterImpl
import LocalLLM.Proofs.Schema

namespace LocalLLM

open Json

namespace Impl

variable {t : Patterns}

-- ============================================================== the table

/-- The reading under which a pattern is valid when it was compiled. -/
def within (t : Patterns) (s : Compiled t) : Patterns :=
  { t with isValid := fun pattern => s.table.contains pattern }

/-- No pattern of `s` is missing in `s'`. -/
def Extends (s s' : Compiled t) : Prop :=
  ∀ pattern, pattern ∈ s.table → pattern ∈ s'.table

/-- Code that compiles patterns, beside the check it makes: `check` is given
the reading of what a valid pattern is. -/
structure Tracks (m : Compiling t Unit) (check : Patterns → Except Exn Unit) :
    Prop where
  outcome : ∀ s, (m s).1 = throwing (check t)
  grows : ∀ s, Extends s (m s).2
  visits : ∀ s s', (m s).1 = .ok () → Extends (m s).2 s' →
    check (within t s') = .ok ()

/-- A check that may throw returns what the plain one returns. -/
theorem throwing_eq_ok {α : Type} {r : Except Exn α} {a : α} :
    throwing r = .ok a ↔ r = .ok a := by
  cases r <;> simp [throwing]

/-- And where it fails it throws: it never halts on a lookup. This is what
keeps the two kinds of failure apart in the statements below. -/
theorem throwing_eq_error {α : Type} {r : Except Exn α} {h : Halt}
    (heq : throwing r = .error h) : ∃ x, h = .thrown x := by
  cases r with
  | ok a => cases heq
  | error x =>
      injection heq with heq
      exact ⟨x, heq.symm⟩

namespace Tracks

/-- A check that compiles no pattern tracks itself, whatever the
patterns are. -/
theorem plainly (r : Except Exn Unit) :
    Tracks (plainly r : Compiling t Unit) fun _ => r where
  outcome := fun _ => rfl
  grows := fun _ _ h => h
  visits := fun _ _ h _ => throwing_eq_ok.1 h

/-- Doing nothing tracks the check that always passes. -/
theorem pure : Tracks (Pure.pure () : Compiling t Unit) fun _ => .ok () where
  outcome := fun _ => rfl
  grows := fun _ _ h => h
  visits := fun _ _ _ _ => rfl

/-- One check behind another. The second is run only where the first one
passes, in both readings, so neither has to be total by itself. -/
theorem bind {m m' : Compiling t Unit} {check check' : Patterns →
    Except Exn Unit}
    (h : Tracks m check) (h' : Tracks m' check') :
    Tracks (m >>= fun _ => m') fun t => check t >>= fun _ => check' t := by
  have hrun : ∀ s, (∃ s', m s = (.ok (), s') ∧ (m >>= fun _ => m') s = m' s')
      ∨ ∃ e, (m s).1 = .error e
        ∧ (m >>= fun _ => m') s = (.error e, (m s).2) := by
    intro s
    rcases hm : m s with ⟨_ | _, s'⟩
    · exact .inr ⟨_, rfl, Exec.bind_apply_error hm⟩
    · exact .inl ⟨s', rfl, Exec.bind_apply_ok hm⟩
  refine ⟨fun s => ?_, fun s => ?_, fun s s'' hok hext => ?_⟩
  · have hfirst := h.outcome s
    rcases hrun s with ⟨s', hm, heq⟩ | ⟨e, he, heq⟩
    · rw [hm] at hfirst
      rw [heq, h'.outcome s', throwing_eq_ok.1 hfirst.symm]
      rfl
    · rw [he] at hfirst
      rw [heq]
      cases hcheck : check t with
      | ok u => simp [hcheck, throwing] at hfirst
      | error x =>
          rw [hcheck] at hfirst
          exact hfirst
  · have hfirst := h.grows s
    rcases hrun s with ⟨s', hm, heq⟩ | ⟨e, he, heq⟩
    · rw [hm] at hfirst
      rw [heq]
      exact fun pattern hmem => h'.grows s' pattern (hfirst pattern hmem)
    · rw [heq]
      exact hfirst
  · rcases hrun s with ⟨s', hm, heq⟩ | ⟨e, he, heq⟩
    · rw [heq] at hok hext
      have hfirst : check (within t s'') = .ok () := by
        refine h.visits s s'' (by rw [hm]) fun pattern hmem => ?_
        rw [hm] at hmem
        exact hext pattern (h'.grows s' pattern hmem)
      rw [hfirst]
      exact h'.visits s' s'' hok hext
    · rw [heq] at hok
      cases hok

/-- A case distinction on the document, not on the table, is
tracked arm by arm. -/
theorem ite {c : Prop} [Decidable c] {m m' : Compiling t Unit}
    {check check' : Patterns → Except Exn Unit} (h : c → Tracks m check)
    (h' : ¬ c → Tracks m' check') :
    Tracks (if c then m else m') fun t => if c then check t else check' t := by
  by_cases hc : c
  · simpa only [if_pos hc] using h hc
  · simpa only [if_neg hc] using h' hc

/-- A loop is tracked when each of its turns is. -/
theorem forEach {α : Type} {m : α → Compiling t Unit}
    {check : Patterns → α → Except Exn Unit} {l : List α}
    (h : ∀ a, Tracks (m a) fun t => check t a) :
    Tracks (forEach m l) fun t => each (check t) l := by
  induction l with
  | nil => exact pure
  | cons a rest ih => exact (h a).bind ih

end Tracks

-- ============================================================== schemas

/-- A pattern that is in the table is not compiled again; one that is not goes
in if it is valid, and the check fails otherwise. -/
theorem compile_apply (pattern : QString) (s : Compiled t) :
    compile pattern s
      = if pattern ∈ s.table then (.ok (), s)
        else if hvalid : t.isValid pattern = true then
          (.ok (), s.insert ⟨pattern, hvalid⟩)
        else (throwing (fail (qs "Invalid string pattern")), s) := by
  unfold compile
  rw [Exec.bind_apply_ok (Exec.get_apply s)]
  by_cases hmem : pattern ∈ s.table
  · simp [hmem]
  · by_cases hvalid : t.isValid pattern = true
    · simp [hmem, hvalid]
    · simp [hmem, hvalid, plainly]

/-- The table holds valid patterns only, which is a field of it. -/
theorem isValid_of_mem {s : Compiled t} {pattern : QString}
    (hmem : pattern ∈ s.table) : t.isValid pattern = true := by
  have hexpression := Std.ExtTreeMap.getElem?_eq_some_getElem hmem
  exact s.filed _ _ hexpression ▸ (s.table[pattern]).valid

/-- The one place where the reading of validity matters. -/
theorem tracks_compile (pattern : QString) :
    Tracks (compile pattern : Compiling t Unit) fun t =>
      orFail (t.isValid pattern = true) (qs "Invalid string pattern") := by
  refine ⟨fun s => ?_, fun s => ?_, fun s s' hok hext => ?_⟩
  · rw [compile_apply]
    by_cases hmem : pattern ∈ s.table
    · rw [if_pos hmem]
      simp [orFail, isValid_of_mem hmem, throwing]
    · by_cases hvalid : t.isValid pattern = true
      · simp [hmem, hvalid, orFail, throwing]
      · simp [hmem, hvalid, orFail]
  · rw [compile_apply]
    intro key hkey
    split
    · exact hkey
    · split
      · exact Std.ExtTreeMap.mem_insert.2 (.inr hkey)
      · exact hkey
  · rw [compile_apply] at hok hext
    have hmem : pattern ∈ s'.table := by
      split at hok
      next hmem => exact hext pattern (by simp [hmem])
      next hmem =>
        split at hok
        next hvalid =>
          refine hext pattern ?_
          simp [hmem, hvalid, Compiled.insert]
        next => simp [fail, throwing] at hok
    simp [within, orFail, hmem]

/-- Checking `pattern` puts it into the table and accepts it just
when it is valid. -/
theorem tracks_pattern (key : QString) (value : Json) :
    Tracks (checkPattern key value : Compiling t Unit)
      fun t => LocalLLM.checkPattern t key value :=
  .ite (fun _ => .bind (.plainly _) (tracks_compile _)) fun _ => .pure

/-- The check of `anyOf` and its kin goes through the alternatives. -/
theorem tracks_alternatives {child : JsonObject → Compiling t Unit}
    {check : Patterns → JsonObject → Except Exn Unit}
    (hchild : ∀ s, Tracks (child s) fun t => check t s) (key : QString)
    (value : Json) :
    Tracks (checkAlternatives child key value)
      fun t => LocalLLM.checkAlternatives (check t) key value :=
  .ite (fun _ => .bind (.plainly _)
    (.forEach fun _ => .bind (.plainly _) (hchild _))) fun _ => .pure

/-- The check of `items` and `prefixItems` goes through their schemas. -/
theorem tracks_items {child : JsonObject → Compiling t Unit}
    {check : Patterns → JsonObject → Except Exn Unit}
    (hchild : ∀ s, Tracks (child s) fun t => check t s) (key : QString)
    (value : Json) :
    Tracks (checkItems child key value)
      fun t => LocalLLM.checkItems (check t) key value :=
  .ite (fun _ => .ite (fun _ => hchild _) fun _ => .plainly _) fun _ => .pure

/-- The check of `properties` goes through the schemas of its members. -/
theorem tracks_properties {child : JsonObject → Compiling t Unit}
    {check : Patterns → JsonObject → Except Exn Unit}
    (hchild : ∀ s, Tracks (child s) fun t => check t s) (key : QString)
    (value : Json) :
    Tracks (checkProperties child key value)
      fun t => LocalLLM.checkProperties (check t) key value :=
  .ite (fun _ => .bind (.plainly _)
    (.forEach fun _ => .bind (.plainly _) (hchild _))) fun _ => .pure

/-- The table of groups says of every id what the catalog says. -/
def SameIds (groups : Std.ExtTreeMap QString ParameterGroupDefinition)
    (C : ParameterCatalog) : Prop :=
  ∀ id, groups.contains id = C.contains id

/-- Each keyword is checked in the same way with the table as without; a
reference is looked up among the same ids. -/
theorem tracks_keyword
    {groups : Std.ExtTreeMap QString ParameterGroupDefinition}
    {C : ParameterCatalog} (hids : SameIds groups C)
    {child : JsonObject → Compiling t Unit}
    {check : Patterns → JsonObject → Except Exn Unit}
    (hchild : ∀ s, Tracks (child s) fun t => check t s) (m : QString × Json) :
    Tracks (checkKeyword groups child m)
      fun t => LocalLLM.checkKeyword C t (check t) m := by
  unfold checkKeyword LocalLLM.checkKeyword
  simp only [hids _]
  refine .bind (.plainly _) (.bind (.plainly _) (.bind (.plainly _)
    (.bind (.plainly _) (.bind (.plainly _) ?_))))
  exact .bind (tracks_alternatives hchild _ _) (.bind (tracks_items hchild _ _)
    (.bind (tracks_properties hchild _ _) (.bind (.plainly _)
    (.bind (tracks_pattern _ _) (.plainly _)))))

/-- The counter and the levels that are left sum to the nesting limit; the
fuel only has to cover the levels. -/
theorem tracks_schema {groups : Std.ExtTreeMap QString
    ParameterGroupDefinition}
    {C : ParameterCatalog} (hids : SameIds groups C) :
    ∀ (n depth fuel : Nat) (schema : JsonObject), depth + n = levels →
    n < fuel →
    Tracks (checkSchema groups fuel depth schema : Compiling t Unit)
      fun t => LocalLLM.checkSchema C t n schema := by
  intro n
  induction n with
  | zero =>
      intro depth fuel schema hdepth hfuel
      obtain ⟨fuel, rfl⟩ : ∃ k, fuel = k + 1 := ⟨fuel - 1, by omega⟩
      have hdeep : 32 < depth := by unfold levels at hdepth; omega
      simp only [checkSchema, if_pos hdeep]
      exact .plainly _
  | succ n ih =>
      intro depth fuel schema hdepth hfuel
      obtain ⟨fuel, rfl⟩ : ∃ k, fuel = k + 1 := ⟨fuel - 1, by omega⟩
      have hshallow : ¬ 32 < depth := by unfold levels at hdepth; omega
      simp only [checkSchema, if_neg hshallow]
      refine .forEach fun m => tracks_keyword hids (fun s => ?_) m
      exact ih (depth + 1) fuel s (by omega) (by omega)

-- ============================================================== indexes

/-- The index of a list of fields: it knows the position of every name, and
the required fields by their positions. -/
structure Points (parameters : List ParameterDefinition) (index : GroupIndex) :
    Prop where
  absent : ∀ name : QString, index.fields[name]? = none →
    parameters.find? (fun p => p.name == name) = none
  present : ∀ (name : QString) (i : Nat), index.fields[name]? = some i →
    ∃ p, parameters[i]? = some p
      ∧ parameters.find? (fun p => p.name == name) = some p
  required : index.required.map (parameters[·]?)
    = (parameters.filter fun p => p.required && !p.hasDefault
      && !p.readOnly).map some

/-- One more field with a new name. The index gains its position and keeps all
others, which is what lets the loop over the fields go on. -/
theorem Points.step {passed : List ParameterDefinition} {index : GroupIndex}
    (h : Points passed index) {field : ParameterDefinition}
    (hnew : ∀ p ∈ passed, p.name ≠ field.name) :
    Points (passed ++ [field])
      { fields := index.fields.insert field.name passed.length
        required :=
          if field.required && !field.hasDefault && !field.readOnly
            then index.required ++ [passed.length] else index.required } := by
  have hlast : (passed ++ [field])[passed.length]? = some field := by simp
  have hkept : ∀ {i : Nat} {p}, passed[i]? = some p →
      (passed ++ [field])[i]? = some p := by
    intro i p hp
    rw [List.getElem?_append_left (List.getElem?_eq_some_iff.1 hp).1, hp]
  have hfind : ∀ name, (passed ++ [field]).find? (fun p => p.name == name)
      = (passed.find? fun p => p.name == name).or
        (if field.name = name then some field else none) := by
    intro name
    rw [List.find?_append, List.find?_singleton]
    simp
  refine ⟨fun name habsent => ?_, fun name i hpresent => ?_, ?_⟩
  · dsimp only at habsent
    rw [Std.ExtTreeMap.getElem?_insert] at habsent
    split at habsent
    next => cases habsent
    next hname =>
      have hne : field.name ≠ name :=
        fun heq => hname (Std.compare_eq_iff_eq.2 heq)
      rw [hfind, h.absent name habsent, if_neg hne]
      rfl
  · dsimp only at hpresent
    rw [Std.ExtTreeMap.getElem?_insert] at hpresent
    split at hpresent
    next hname =>
      have heq : field.name = name := Std.compare_eq_iff_eq.1 hname
      injection hpresent with hpresent
      subst hpresent
      have hnone : passed.find? (fun p => p.name == name) = none := by
        rw [List.find?_eq_none]
        exact fun p hp => by simpa [← heq] using hnew p hp
      refine ⟨field, hlast, ?_⟩
      rw [hfind, hnone, if_pos heq]
      rfl
    next =>
      obtain ⟨p, hp, hfound⟩ := h.present name i hpresent
      refine ⟨p, hkept hp, ?_⟩
      rw [hfind, hfound]
      rfl
  · have hbefore : index.required.map ((passed ++ [field])[·]?)
        = index.required.map (passed[·]?) := by
      refine List.map_congr_left fun i hi => ?_
      have hi : passed[i]? ∈ index.required.map (passed[·]?) :=
        List.mem_map_of_mem hi
      rw [h.required] at hi
      obtain ⟨p, -, hp⟩ := List.mem_map.1 hi
      rw [hkept hp.symm, ← hp]
    rw [List.filter_append, List.map_append, ← h.required, ← hbefore,
      List.filter_cons]
    dsimp only
    split
    · rw [List.map_append]
      simp
    · simp

/-- The index of a group has each field under its name, where no two fields
share one. -/
theorem points_indexFields {parameters : List ParameterDefinition}
    (hnames : (parameters.map ParameterDefinition.name).Nodup) :
    Points parameters (indexFields 0 parameters {}) := by
  have hrun : ∀ (rest passed : List ParameterDefinition) (index : GroupIndex),
      ((passed ++ rest).map ParameterDefinition.name).Nodup →
      Points passed index →
      Points (passed ++ rest) (indexFields passed.length rest index) := by
    intro rest
    induction rest with
    | nil =>
        intro passed index _ hpoints
        rwa [List.append_nil]
    | cons field rest ih =>
        intro passed index hnodup hpoints
        have hnew : ∀ p ∈ passed, p.name ≠ field.name := by
          rw [List.map_append, List.nodup_append] at hnodup
          exact fun p hp => hnodup.2.2 _ (List.mem_map_of_mem hp) _ (by simp)
        have hstep := ih (passed ++ [field]) _ (by simpa using hnodup)
          (hpoints.step hnew)
        rw [List.length_append, List.append_assoc] at hstep
        exact hstep
  exact hrun parameters [] {} hnames ⟨by simp, by simp, by simp⟩

-- =========================================================== validation

@[simp] theorem both_ok (a b : Bool) :
    both (.ok a) (.ok b) = .ok (a && b) := by
  cases a <;> rfl

/-- A loop of checks that all end gives the conjunction of what they give.
Where one of them looked something up in vain, the loop would end there. -/
theorem forAll_eq {α : Type} {check : α → Verdict} {p : α → Bool} {l : List α}
    (h : ∀ a ∈ l, check a = .ok (p a)) : forAll check l = .ok (l.all p) := by
  induction l with
  | nil => rfl
  | cons a rest ih =>
      rw [forAll, h a (by simp), ih fun b hb => h b (by simp [hb]), both_ok]
      rfl

/-- And one that looks for a success gives the disjunction. -/
theorem forSome_eq {α : Type} {check : α → Verdict} {p : α → Bool} {l : List α}
    (h : ∀ a ∈ l, check a = .ok (p a)) : forSome check l = .ok (l.any p) := by
  induction l with
  | nil => rfl
  | cons a rest ih =>
      rw [forSome, h a (by simp), ih fun b hb => h b (by simp [hb])]
      rw [List.any_cons]
      cases p a <;> rfl

/-- The tables of a catalog that was loaded: they hold its groups with their
indexes, and every schema was visited by `checkSchema`. -/
structure Holds (d : Impl t) (C : ParameterCatalog) : Prop where
  groups : ∀ id : QString, d.groups[id]? = C.group? id
  indexes : ∀ (id : QString) (g : ParameterGroupDefinition),
    C.group? id = some g →
    ∃ index, d.indexes[id]? = some index ∧ Points g.parameters index
  loaded : Loaded C (within t d.patterns)

section Level

variable {d : Impl t} {C : ParameterCatalog}
  {recurse : JsonObject → Option Json → Verdict}
  {plain : JsonObject → Json → Bool}

/-- The next level agrees on what was checked. -/
def Agrees (d : Impl t) (C : ParameterCatalog)
    (recurse : JsonObject → Option Json → Verdict)
    (plain : JsonObject → Json → Bool) : Prop :=
  ∀ schema value, Checked C (within t d.patterns) schema →
    recurse schema (some value) = .ok (plain schema value)

/-- `anyOf` asks the alternatives of a checked schema, which were
checked as well. -/
theorem acceptsAnyOf_eq (hagrees : Agrees d C recurse plain)
    {schema : JsonObject}
    (hchecked : Checked C (within t d.patterns) schema) (value : Json) :
    acceptsAnyOf recurse schema value
      = .ok (LocalLLM.acceptsAnyOf plain schema value) := by
  unfold acceptsAnyOf LocalLLM.acceptsAnyOf
  split
  next hany =>
    rw [hany]
    exact forSome_eq fun branch hbranch =>
      hagrees _ _ (hchecked.alternative (.inl rfl) hbranch)
  next hany => simp [hany]

/-- `items` and `prefixItems` are read from a checked schema, so each item
meets a schema that was checked. -/
theorem acceptsItems_eq (hagrees : Agrees d C recurse plain)
    {schema : JsonObject}
    (hchecked : Checked C (within t d.patterns) schema) (array : List Json) :
    acceptsItems recurse schema array
      = .ok (LocalLLM.acceptsItems plain schema array) := by
  have hitems : (if isObject (lookup schema (qs "items")) then
        forAll (fun item =>
          recurse (toObject (lookup schema (qs "items"))) (some item)) array
      else .ok true)
      = .ok (!isObject (lookup schema (qs "items"))
        || array.all fun item =>
          plain (toObject (lookup schema (qs "items"))) item) := by
    split
    next hobject =>
      rw [hobject]
      exact forAll_eq fun item _ => hagrees _ _
        (hchecked.items (.inl rfl) hobject)
    next hobject => simp [hobject]
  have hprefix : (if isArray (lookup schema (qs "prefixItems")) then
        let items := toArray (lookup schema (qs "prefixItems"))
        if items.length ≠ array.length then .ok false
        else forAll (fun p : Json × Json =>
          recurse (toObject (some p.1)) (some p.2))
          (items.zip array)
      else .ok true)
      = .ok (!isArray (lookup schema (qs "prefixItems"))
        || (let items := toArray (lookup schema (qs "prefixItems"))
          items.length == array.length
            && (items.zip array).all fun p =>
              plain (toObject (some p.1)) p.2)) := by
    split
    next harray =>
      dsimp only
      split
      next hlength => simp [harray, hlength]
      next hlength =>
        rw [forAll_eq fun p hp => hagrees _ _
          (hchecked.alternative (.inr rfl) (List.of_mem_zip hp).1)]
        simp [harray, not_not.1 hlength]
    next harray => simp [harray]
  unfold acceptsItems
  rw [hitems, hprefix, both_ok]
  rfl

/-- A member is held against its property or against `additionalProperties`;
both were checked. -/
theorem acceptsMember_eq (hagrees : Agrees d C recurse plain)
    {schema : JsonObject}
    (hchecked : Checked C (within t d.patterns) schema) (m : QString × Json) :
    acceptsMember recurse schema m
      = .ok (LocalLLM.acceptsMember plain schema m) := by
  unfold acceptsMember LocalLLM.acceptsMember
  dsimp only
  split
  next hproperty => exact hagrees _ _ (hchecked.property hproperty)
  next =>
    split
    next hobject => exact hagrees _ _ (hchecked.items (.inr rfl) hobject)
    next => rfl

/-- The checks of a group through its index answer as the plain ones do, and no
look-up among them misses. -/
theorem acceptsGroup_eq (hagrees : Agrees d C recurse plain)
    {g : ParameterGroupDefinition} {index : GroupIndex}
    (hpoints : Points g.parameters index)
    (hfields : ∀ p ∈ g.parameters, Checked C (within t d.patterns) p.schema)
    (object : JsonObject) :
    acceptsGroup recurse g.parameters index object
      = .ok (LocalLLM.acceptsGroup plain g object) := by
  have hrequired : forAll (fun position => do
        let field ← found (.position position) g.parameters[position]?
        return contains object field.name) index.required
      = .ok (g.required.all fun p => contains object p.name) := by
    have hsame : ∀ (positions : List Nat) (fields : List ParameterDefinition),
        positions.map (g.parameters[·]?) = fields.map some →
        forAll (fun position => do
          let field ← found (.position position) g.parameters[position]?
          return contains object field.name) positions
          = .ok (fields.all fun p => contains object p.name) := by
      intro positions
      induction positions with
      | nil =>
          intro fields hmap
          cases fields with
          | nil => rfl
          | cons _ _ => cases hmap
      | cons i rest ih =>
          intro fields hmap
          cases fields with
          | nil => cases hmap
          | cons p fields =>
              rw [List.map_cons, List.map_cons] at hmap
              injection hmap with hp hmap
              rw [forAll, hp, ih fields hmap]
              exact both_ok _ _
    exact hsame index.required g.required hpoints.required
  unfold acceptsGroup LocalLLM.acceptsGroup
  refine (congrArg₂ both hrequired (forAll_eq fun m _ => ?_)).trans
    (both_ok _ _)
  cases hposition : index.fields[m.1]? with
  | none =>
      have habsent : g.field? m.1 = none := hpoints.absent m.1 hposition
      rw [habsent]
  | some position =>
      obtain ⟨p, hp, hfound⟩ := hpoints.present m.1 position hposition
      have hpresent : g.field? m.1 = some p := hfound
      rw [hpresent]
      have hschema := hagrees p.schema m.2
        (hfields p (List.mem_of_getElem? hp))
      simp only [hp, found, ok_bind, hschema]
      cases p.readOnly <;> rfl

/-- A reference finds its group by its id, and each field by its name: no
lookup misses in a loaded catalog. -/
theorem acceptsObject_eq (hd : Holds d C) (hagrees : Agrees d C recurse plain)
    {schema : JsonObject} (hchecked : Checked C (within t d.patterns) schema)
    (object : JsonObject) :
    acceptsObject recurse schema d object
      = .ok (LocalLLM.acceptsObject C plain schema object) := by
  have hmembers : forAll (acceptsMember recurse schema) object
      = .ok (object.all (LocalLLM.acceptsMember plain schema)) :=
    forAll_eq fun m _ => acceptsMember_eq hagrees hchecked m
  unfold acceptsObject LocalLLM.acceptsObject
  rw [hmembers, Bool.and_assoc, ← both_ok, ← both_ok]
  refine congrArg (both _) (congrArg (both _) ?_)
  dsimp only
  rw [hd.groups]
  cases hgroup : C.group? (keywordText schema "ref") with
  | none => rfl
  | some g =>
      obtain ⟨index, hindex, hpoints⟩ := hd.indexes _ g hgroup
      have hmem := (ParameterCatalog.group?_some hgroup).1
      simp only [hindex, found, ok_bind]
      exact acceptsGroup_eq hagrees hpoints
        (fun p hp => hd.loaded.checked hmem hp) object

/-- Every pattern of a checked schema was compiled with the catalog, so the
table has it. -/
theorem acceptsString_eq {schema : JsonObject}
    (hchecked : Checked C (within t d.patterns) schema) (text : QString) :
    acceptsString schema d text
      = .ok (LocalLLM.acceptsString t schema text) := by
  have hpattern : (if contains schema (qs "pattern") then do
        let expression ← found (.pattern (keywordText schema "pattern"))
          d.patterns.table[keywordText schema "pattern"]?
        return t.hasMatch expression.pattern text
      else .ok true)
      = (.ok (!contains schema (qs "pattern")
        || t.hasMatch (keywordText schema "pattern") text) : Verdict) := by
    split
    next hcontains =>
      have hmem : keywordText schema "pattern" ∈ d.patterns.table := by
        simpa [within] using hchecked.pattern hcontains
      have hexpression := Std.ExtTreeMap.getElem?_eq_some_getElem hmem
      rw [hexpression]
      simp only [found, ok_bind, d.patterns.filed _ _ hexpression, hcontains]
      rfl
    next hcontains => simp [hcontains]
  unfold acceptsString
  dsimp only
  rw [hpattern, both_ok]
  rfl

/-- The keywords of a schema that look into a value agree with those of the
plain catalog, one after the other. -/
theorem acceptsContents_eq (hd : Holds d C)
    (hagrees : Agrees d C recurse plain)
    {schema : JsonObject} (hchecked : Checked C (within t d.patterns) schema)
    (value : Json) :
    acceptsContents recurse schema d value
      = .ok (LocalLLM.acceptsContents C t plain schema value) := by
  have harray : (if isArray (some value) then
        both (.ok (acceptsSize schema (toArray (some value)).length
            "minItems" "maxItems"))
          (acceptsItems recurse schema (toArray (some value)))
      else .ok true)
      = (.ok (!isArray (some value)
        || (acceptsSize schema (toArray (some value)).length
          "minItems" "maxItems"
          && LocalLLM.acceptsItems plain schema (toArray (some value)))) :
            Verdict) := by
    split
    next h => rw [acceptsItems_eq hagrees hchecked, both_ok, h]; rfl
    next h => simp [h]
  have hobject : (if isObject (some value) then
        acceptsObject recurse schema d (toObject (some value))
      else .ok true)
      = (.ok (!isObject (some value)
        || LocalLLM.acceptsObject C plain schema (toObject (some value))) :
          Verdict) := by
    split
    next h => rw [acceptsObject_eq hd hagrees hchecked, h]; rfl
    next h => simp [h]
  have hstring : (if isString (some value) then
        acceptsString schema d (toText (some value))
      else .ok true)
      = (.ok (!isString (some value)
        || LocalLLM.acceptsString t schema (toText (some value))) :
          Verdict) := by
    split
    next h => rw [acceptsString_eq hchecked, h]; rfl
    next h => simp [h]
  unfold acceptsContents
  dsimp only
  rw [harray, hobject, hstring]
  simp only [both_ok]
  unfold LocalLLM.acceptsContents
  simp only [Bool.and_assoc]

/-- One level of the validator with an index answers like one without, given
that the levels below do. -/
theorem acceptsWith_eq (hd : Holds d C) (hagrees : Agrees d C recurse plain)
    {schema : JsonObject} (hchecked : Checked C (within t d.patterns) schema)
    (value : Json) :
    acceptsWith recurse schema d value
      = .ok (LocalLLM.acceptsWith C t plain schema value) := by
  unfold acceptsWith LocalLLM.acceptsWith
  rw [acceptsAnyOf_eq hagrees hchecked, acceptsContents_eq hd hagrees hchecked]
  by_cases hnull : (isNull (some value)
    && Json.toBool (lookup schema (qs "nullable")))
  · rw [if_pos hnull, if_pos hnull]
  · rw [if_neg hnull, if_neg hnull]
    have hrest : (if keywordText schema "type" == qs "external" then .ok false
        else if keywordText schema "type" == qs "null"
          then .ok (isNull (some value))
        else both (.ok (acceptsType schema value))
          (both (.ok (acceptsBounds schema value))
            (.ok (LocalLLM.acceptsContents C t plain schema value))))
        = (.ok (if keywordText schema "type" == qs "external" then false
        else if keywordText schema "type" == qs "null" then isNull (some value)
        else acceptsType schema value && acceptsBounds schema value
          && LocalLLM.acceptsContents C t plain schema value) : Verdict) := by
      simp only [both_ok, Bool.and_assoc, apply_ite Except.ok]
    rw [hrest, both_ok, both_ok]
    cases LocalLLM.acceptsAnyOf plain schema value with
    | false => rfl
    | true => cases acceptsEnum schema value <;> rfl

end Level

/-- Whatever the fuel, if it covers the levels that are left: the validator
with its tables answers what the plain one does, and no lookup misses. -/
theorem accepts_eq {d : Impl t} {C : ParameterCatalog} (hd : Holds d C) :
    ∀ (n depth fuel : Nat), depth + n = levels → n < fuel →
    Agrees d C (accepts d fuel depth) (LocalLLM.accepts C t n) := by
  intro n
  induction n with
  | zero =>
      intro depth fuel hdepth hfuel schema value _
      obtain ⟨fuel, rfl⟩ : ∃ k, fuel = k + 1 := ⟨fuel - 1, by omega⟩
      have hdeep : 32 < depth := by unfold levels at hdepth; omega
      simp only [accepts, if_pos hdeep, LocalLLM.accepts]
  | succ n ih =>
      intro depth fuel hdepth hfuel schema value hchecked
      obtain ⟨fuel, rfl⟩ : ∃ k, fuel = k + 1 := ⟨fuel - 1, by omega⟩
      have hshallow : ¬ 32 < depth := by unfold levels at hdepth; omega
      simp only [accepts, if_neg hshallow, LocalLLM.accepts]
      exact acceptsWith_eq hd (ih (depth + 1) fuel (by omega) (by omega))
        hchecked value

-- ============================================================== loading

/-- The tables while the groups are read: no pattern is compiled yet. -/
structure Reads (d : Impl t) (C : ParameterCatalog) : Prop where
  groups : ∀ id : QString, d.groups[id]? = C.group? id
  indexes : ∀ (id : QString) (g : ParameterGroupDefinition),
    C.group? id = some g →
    ∃ index, d.indexes[id]? = some index ∧ Points g.parameters index
  indexed : Indexed C

/-- A catalog that is read so has its groups under the ids of the plain one, so
a reference resolves in both or in neither. -/
theorem Reads.sameIds {d : Impl t} {C : ParameterCatalog} (h : Reads d C) :
    SameIds d.groups C := by
  intro id
  rw [Std.ExtTreeMap.contains_eq_isSome_getElem?, h.groups]
  rfl

/-- The reader of a group only asks whether its id is new. -/
theorem readGroup_eq {d : Impl t} {C : ParameterCatalog} (h : Reads d C)
    (item : Json) : readGroup d item = ParameterCatalog.parseGroup C item := by
  unfold readGroup ParameterCatalog.parseGroup
  simp only [h.sameIds _]

/-- A group that is new is found under its own id, and the others as before. It
is filed between the smaller and the larger ids, so it hides none of them. -/
theorem group?_insert {C : ParameterCatalog} {g : ParameterGroupDefinition}
    (hnew : C.contains g.id = false) (id : QString) :
    (C.insert g).group? id = if g.id = id then some g else C.group? id := by
  have hsplit := List.takeWhile_append_dropWhile
    (p := fun h : ParameterGroupDefinition => compare h.id g.id == .lt)
    (l := C.groups)
  have hold : C.group? id
      = ((C.groups.takeWhile fun h => compare h.id g.id == .lt).find?
          fun h => h.id == id).or
        ((C.groups.dropWhile fun h => compare h.id g.id == .lt).find?
          fun h => h.id == id) := by
    rw [← List.find?_append, hsplit]
    rfl
  unfold ParameterCatalog.insert ParameterCatalog.group? at *
  rw [List.find?_append, List.find?_cons]
  by_cases hid : g.id = id
  · subst hid
    have hnone : (C.groups.find? fun h => h.id == g.id) = none := by
      simpa [ParameterCatalog.contains, ParameterCatalog.group?] using hnew
    have hfront := hold.symm.trans hnone
    rw [Option.or_eq_none_iff] at hfront
    simp [hfront.1]
  · have hne : (g.id == id) = false := beq_eq_false_iff_ne.2 hid
    rw [if_neg hid, hold, hne]

/-- Inserting a group goes on alike on both sides, where its id is new and its
fields have distinct names. -/
theorem Reads.insert {d : Impl t} {C : ParameterCatalog} (h : Reads d C)
    {g : ParameterGroupDefinition} (hnamed : g.id ≠ [])
    (hnew : C.contains g.id = false)
    (hnames : (g.parameters.map ParameterDefinition.name).Nodup) :
    Reads (d.insert g) (C.insert g) := by
  refine ⟨fun id => ?_, fun id g' hg' => ?_,
    h.indexed.insert hnamed hnew hnames⟩
  · rw [group?_insert hnew, ← h.groups]
    exact Maps.find_insert d.groups g.id id g
  · rw [group?_insert hnew] at hg'
    have hindexes := Maps.find_insert d.indexes g.id id
      (indexFields 0 g.parameters {})
    split at hg'
    next hid =>
      injection hg' with hg'
      subst hg'
      exact ⟨_, hindexes.trans (if_pos hid), points_indexFields hnames⟩
    next hid =>
      obtain ⟨index, hindex, hpoints⟩ := h.indexes id g' hg'
      exact ⟨index, (hindexes.trans (if_neg hid)).trans hindex, hpoints⟩

/-- Both readers end alike: with the same groups, or with the same error. The
induction is on the groups that are left to read. -/
theorem readGroups_eq (items : List Json) :
    ∀ {d : Impl t} {C : ParameterCatalog}, Reads d C →
    (∃ d' C', readGroups d items = .ok d'
        ∧ ParameterCatalog.parseGroups C items = .ok C' ∧ Reads d' C')
      ∨ ∃ x, readGroups d items = .error x
        ∧ ParameterCatalog.parseGroups C items = .error x := by
  induction items with
  | nil => exact fun {d C} h => .inl ⟨d, C, rfl, rfl, h⟩
  | cons item rest ih =>
      intro d C h
      have hread := readGroup_eq h item
      simp only [readGroups, ParameterCatalog.parseGroups, hread]
      cases hg : ParameterCatalog.parseGroup C item with
      | error x => exact .inr ⟨x, rfl, rfl⟩
      | ok g =>
          obtain ⟨hnamed, hnew, hnames⟩ := ParameterCatalog.parseGroup_ok hg
          exact ih (h.insert hnamed hnew hnames)

/-- The groups of the table are the groups of the catalog. -/
theorem Reads.mem_iff {d : Impl t} {C : ParameterCatalog} (h : Reads d C)
    {g : ParameterGroupDefinition} :
    g ∈ C.groups ↔ ∃ id, (id, g) ∈ d.groups.toList := by
  simp only [Std.ExtTreeMap.mem_toList_iff_getElem?_eq_some, h.groups]
  refine ⟨fun hmem => ⟨g.id, ?_⟩, fun ⟨id, hid⟩ => (C.group?_some hid).1⟩
  exact (Maps.find?_key fun _ ha _ hb =>
    List.inj_on_of_nodup_map h.indexed.ids ha hb).2 ⟨hmem, rfl⟩

/-- The loops over all fields check the same schemas. -/
theorem Reads.each_iff {d : Impl t} {C : ParameterCatalog} (h : Reads d C)
    (check : JsonObject → Except Exn Unit) :
    each (fun e : QString × ParameterGroupDefinition =>
        each (fun p => check p.schema) e.2.parameters) d.groups.toList = .ok ()
      ↔ each (fun g => each (fun p => check p.schema) g.parameters) C.groups
        = .ok () := by
  rw [each_eq_ok, each_eq_ok]
  refine ⟨fun hall g hg => ?_, fun hall e he => ?_⟩
  · obtain ⟨id, hid⟩ := h.mem_iff.1 hg
    exact hall (id, g) hid
  · exact hall e.2 (h.mem_iff.2 ⟨e.1, he⟩)

/-- The last loop of the load checks every schema of every group, and compiles
their patterns on the way. -/
theorem tracks_groups {d : Impl t} {C : ParameterCatalog} (h : Reads d C)
    {fuel : Nat} (hfuel : levels < fuel) :
    Tracks (checkGroups fuel d) fun t =>
      each (fun e : QString × ParameterGroupDefinition =>
        each (fun p => LocalLLM.checkSchema C t levels p.schema)
          e.2.parameters)
        d.groups.toList :=
  .forEach fun _ => .forEach fun p =>
    tracks_schema h.sameIds levels 0 fuel p.schema (Nat.zero_add _) hfuel

/-- With fuel for the nesting limit a document is loaded or refused by an
exception, as the plain catalog is, and then the tables hold that catalog. -/
theorem fromJson_cases (document : JsonObject) {fuel : Nat}
    (hfuel : levels < fuel) : (∃ d C, fromJson t fuel document = .ok d
        ∧ ParameterCatalog.fromJson t document = .ok C ∧ Holds d C)
      ∨ ∃ x y, fromJson t fuel document = .error (.thrown x)
        ∧ ParameterCatalog.fromJson t document = .error y := by
  unfold fromJson ParameterCatalog.fromJson
  cases orFail (memberSame document "schema_version" (jsonInt 1) = true
      ∧ isArray (lookup document (qs "groups")) = true)
    (qs "Parameter catalog requires schema_version=1 and groups") with
  | error x => exact .inr ⟨x, x, rfl, rfl⟩
  | ok _ =>
      have hempty : Reads ({} : Impl t) {} :=
        ⟨fun id => by simp [ParameterCatalog.group?],
          fun id g hg => by simp [ParameterCatalog.group?] at hg,
          ⟨List.nodup_nil, List.forall_mem_nil _, List.forall_mem_nil _⟩⟩
      rcases readGroups_eq (toArray (lookup document (qs "groups")))
        hempty with ⟨d, C, hd, hC, hreads⟩ | ⟨x, hd, hC⟩
      · have htracks := tracks_groups hreads hfuel
        have houtcome := htracks.outcome d.patterns
        have hvisits := htracks.visits d.patterns
          (checkGroups fuel d d.patterns).2
        rw [hd, hC]
        simp only [throwing, ok_bind]
        rcases hrun : checkGroups fuel d d.patterns with ⟨h | _, patterns⟩
        · rw [hrun] at houtcome
          have hrefused : ∀ u, each (fun g : ParameterGroupDefinition =>
              each (fun p => LocalLLM.checkSchema C t levels p.schema)
                g.parameters)
              C.groups ≠ .ok u := by
            intro u hok
            rw [(hreads.each_iff _).2 hok] at houtcome
            cases houtcome
          obtain ⟨x, hx⟩ := throwing_eq_error houtcome.symm
          refine .inr ?_
          cases hplain : each (fun g : ParameterGroupDefinition =>
              each (fun p => LocalLLM.checkSchema C t levels p.schema)
                g.parameters)
              C.groups with
          | ok u => exact absurd hplain (hrefused u)
          | error y => exact ⟨x, y, by rw [hx], rfl⟩
        · rw [hrun] at houtcome hvisits
          have hchecked := (hreads.each_iff _).1
            (throwing_eq_ok.1 houtcome.symm)
          have hvisited := (hreads.each_iff _).1
            (hvisits rfl fun _ hmem => hmem)
          refine .inl ⟨{ d with patterns }, C, rfl, ?_, hreads.groups,
            hreads.indexes, hreads.indexed.ids, hreads.indexed.named,
            hreads.indexed.names, fun g hg => each_eq_ok.1
              (each_eq_ok.1 hvisited g hg)⟩
          rw [hchecked]
          rfl
      · rw [hd, hC]
        exact .inr ⟨x, x, rfl, rfl⟩

-- =============================================================== safety

/-- A catalog with the groups of a table. -/
def catalogOf (groups : Std.ExtTreeMap QString ParameterGroupDefinition) :
    ParameterCatalog where
  groups := groups.toList.map fun e => { e.2 with id := e.1 }

/-- The catalog made of some groups has just their ids. -/
theorem sameIds_catalogOf
    (groups : Std.ExtTreeMap QString ParameterGroupDefinition) :
    SameIds groups (catalogOf groups) := by
  intro id
  rw [Bool.eq_iff_iff, Std.ExtTreeMap.contains_eq_isSome_getElem?,
    Option.isSome_iff_exists]
  simp only [catalogOf, ParameterCatalog.contains, ParameterCatalog.group?,
    List.find?_isSome, List.mem_map, beq_iff_eq]
  constructor
  · intro h
    obtain ⟨g, hg⟩ := h
    have hmem := Std.ExtTreeMap.mem_toList_iff_getElem?_eq_some.2 hg
    exact ⟨{ g with id := id }, ⟨(id, g), hmem, rfl⟩, rfl⟩
  · rintro ⟨g, ⟨e, he, rfl⟩, rfl⟩
    exact ⟨e.2, Std.ExtTreeMap.mem_toList_iff_getElem?_eq_some.1 he⟩

/-- The schema checker ends on every schema, whatever groups there are and
whatever was compiled before: it returns or throws. Loading a document ends
in the same way. Once a document is loaded, the validator ends on every
field and every value: no lookup misses, and the answer is that of the
plain catalog. -/
theorem validator_safe (t : Patterns) (document : JsonObject) (fuel : Nat)
    (hfuel : 34 ≤ fuel) :
    (∀ groups schema (s : Compiled t),
      ∃ r, (checkSchema groups fuel 0 schema s).1 = throwing r)
    ∧ (∃ r, fromJson t fuel document = throwing r)
    ∧ ∀ d, fromJson t fuel document = .ok d →
      ∃ C, ParameterCatalog.fromJson t document = .ok C
        ∧ ∀ (id : QString) g, d.groups[id]? = some g → ∀ p ∈ g.parameters,
          ∀ value fuel', 34 ≤ fuel' →
          accepts d fuel' 0 p.schema value
            = .ok (acceptsValue C t p.schema value) := by
  have hlevels : ∀ n, 34 ≤ n → levels < n :=
    fun n hn => by unfold levels; omega
  refine ⟨fun groups schema s => ?_, ?_, fun d hd => ?_⟩
  · exact ⟨_, (tracks_schema (sameIds_catalogOf groups) levels 0 fuel schema
      (Nat.zero_add _) (hlevels fuel hfuel)).outcome s⟩
  · rcases fromJson_cases (t := t) document (hlevels fuel hfuel)
      with ⟨d, C, hd, -, -⟩ | ⟨x, -, hx, -⟩
    · exact ⟨.ok d, hd⟩
    · exact ⟨.error x, hx⟩
  · rcases fromJson_cases (t := t) document (hlevels fuel hfuel)
      with ⟨d', C, hd', hC, hholds⟩ | ⟨x, -, hx, -⟩
    · rw [hd'] at hd
      injection hd with hd
      subst hd
      refine ⟨C, hC, fun id g hg p hp value fuel' hfuel' => ?_⟩
      have hmem := (ParameterCatalog.group?_some
        ((hholds.groups id).symm.trans hg)).1
      cases value with
      | none =>
          obtain ⟨fuel', rfl⟩ : ∃ k, fuel' = k + 1 := ⟨fuel' - 1, by omega⟩
          rfl
      | some value =>
          exact accepts_eq hholds levels 0 fuel' (Nat.zero_add _)
            (hlevels fuel' hfuel') p.schema value
            (hholds.loaded.checked hmem hp)
    · rw [hx] at hd
      cases hd

-- ============================================================ on a sample

/-- A field with a schema. -/
def fieldDocument (name : String) (schema : JsonObject) : Json :=
  .object
    [(qs "description", .string (qs "A link.")),
     (qs "name", .string (qs name)),
     (qs "native_type", .string (qs "link")),
     (qs "schema", .object schema)]

def groupDocument (id : String) (parameters : List Json) : Json :=
  .object
    [(qs "id", .string (qs id)),
     (qs "parameters", .array parameters)]

/-- Two groups that refer to each other. -/
def cyclicDocument : JsonObject :=
  [(qs "groups", .array
      [groupDocument "head"
        [fieldDocument "next" [(qs "ref", .string (qs "tail"))]],
       groupDocument "tail"
        [fieldDocument "next" [(qs "ref", .string (qs "head"))],
         fieldDocument "text" [(qs "pattern", .string (qs "a+"))]]]),
   (qs "schema_version", jsonInt 1)]

/-- The catalog of the cyclic document loads, and its validator ends, although
the schema refers to itself. -/
theorem validator_safe_cyclic :
    ∃ d, fromJson Sample.patterns 34 cyclicDocument = .ok d
      ∧ ∀ value, ∃ b, accepts d 34 0 [(qs "ref", .string (qs "tail"))] value
        = .ok b := by
  have hplain :
    ∃ C, ParameterCatalog.fromJson Sample.patterns cyclicDocument = .ok C
      ∧ ∃ g, C.group? (qs "head") = some g
        ∧ ∃ p ∈ g.parameters, p.schema = [(qs "ref", .string (qs "tail"))] :=
    ⟨_, rfl, _, rfl, _, List.mem_singleton.2 rfl, rfl⟩
  obtain ⟨C, hC, g, hg, p, hp, hschema⟩ := hplain
  have hsafe := validator_safe Sample.patterns cyclicDocument 34
    (Nat.le_refl _)
  rcases fromJson_cases (t := Sample.patterns) cyclicDocument
    (show levels < 34 by decide) with ⟨d, C', hd, hC', hholds⟩ | ⟨_,
      _, -, hrefused⟩
  · rw [hC] at hC'
    injection hC' with hC'
    subst hC'
    refine ⟨d, hd, fun value => ?_⟩
    obtain ⟨C', -, hvalues⟩ := hsafe.2.2 d hd
    rw [← hschema]
    exact ⟨_, hvalues (qs "head") g ((hholds.groups _).trans hg) p hp value 34
      (Nat.le_refl _)⟩
  · rw [hC] at hrefused
    cases hrefused

end Impl

end LocalLLM
