/-
Scans of the Models directory, and what is found in it.

# What is published

A directory is published when its name is not hidden and a scan in which
nothing fails lists its package (`Publishes`). Any scan lists some of these and
nothing else (`scan_lists`), since what cannot be read is left out; it lists
those into which it can look (`scan_sees`).

# What is found

Where ids are unique, no scan has two packages for one URI
(`find_unambiguous`), and where nothing fails the published package is
found (`find_published`).
-/
import LocalLLM.Proofs.Installation

namespace LocalLLM.ModelsDirectory

open Std
open ModelInspection
open ManifestObject (parseModelManifest manifestObject Errs)

variable {lib : Library} {chance : Chance} {place : Place} {node : Node}
  {models : Models}

-- =============================================================== what is read

/-- A manifest that was read is read where nothing fails. -/
theorem readManifest_calm {m : ModelManifest}
    (h : readManifest lib chance place node = .ok m) (place' : Place) :
    readManifest lib {} place' node = .ok m := by
  unfold readManifest at h ⊢
  split at h
  next content hfollow =>
    obtain ⟨_, -, h⟩ := bind_eq_ok.1 h
    obtain ⟨_, hlength, h⟩ := bind_eq_ok.1 h
    obtain ⟨_, -, h⟩ := bind_eq_ok.1 h
    refine bind_eq_ok.2 ⟨(), rfl,
      bind_eq_ok.2 ⟨(), hlength, bind_eq_ok.2 ⟨(), rfl, ?_⟩⟩⟩
    by_cases hfails : chance.fails (.readManifest place) = true
    · -- what was not read is no JSON text
      rw [if_pos hfails, lib.fromJson_nil] at h
      cases h
    · rw [if_neg hfails] at h
      exact h
  next => cases h

/-- Where nothing fails at a place, it is the same as where nothing
fails at all. -/
theorem readManifest_open (place' : Place)
    (hmanifest : chance.fails (.manifest place) = false)
    (hopen : chance.fails (.openManifest place) = false)
    (hread : chance.fails (.readManifest place) = false) :
    readManifest lib chance place node = readManifest lib {} place' node := by
  unfold readManifest
  rw [hmanifest, hopen, hread]
  rfl

/-- A manifest is refused with an `Error`. -/
theorem readManifest_errs (lib : Library) (chance : Chance) (place : Place)
    (node : Node) : Errs (readManifest lib chance place node) := by
  unfold readManifest
  split
  · refine .bind (.require _ _ _) fun _ => .bind (.require _ _ _) fun _ =>
      .bind ?_ fun _ => ?_
    · unfold demandThat
      split
      · exact .ok _
      · exact .error _
    · split
      · exact .error _
      · exact ManifestObject.parse_errs _ _
  · exact .error _

/-- A manifest that was read has passed the parser, so all that the parser
promises holds of it. -/
theorem readManifest_ok {m : ModelManifest}
    (h : readManifest lib chance place node = .ok m) :
    ∃ document, parseModelManifest lib.letters document = .ok m := by
  unfold readManifest at h
  split at h
  next content hfollow =>
    obtain ⟨_, -, h⟩ := bind_eq_ok.1 h
    obtain ⟨_, -, h⟩ := bind_eq_ok.1 h
    obtain ⟨_, -, h⟩ := bind_eq_ok.1 h
    split at h
    · cases h
    · exact ⟨_, h⟩
  next => cases h

-- ========================================================== what is published

/-- The public part of the directory. -/
def listed (models : Models) (name : QString) : Option Node :=
  if isHidden name then none else models[name]?

/-- A package is published under a name. -/
def Publishes (lib : Library) (models : Models) (name : QString)
    (m : ModelManifest) : Prop :=
  ∃ node, listed models name = some node
    ∧ scanEntry lib {} (name, node) = .ok m

/-- A scan can look into a directory. -/
structure Open (chance : Chance) (name : QString) : Prop where
  models : chance.fails .models = false
  entry : chance.fails (.entry name) = false
  manifest : chance.fails (.manifest (.published name)) = false
  openManifest : chance.fails (.openManifest (.published name)) = false
  readManifest : chance.fails (.readManifest (.published name)) = false

/-- Where nothing fails, every entry can be looked into. -/
theorem Calm.open (h : Calm chance) (name : QString) : Open chance name :=
  ⟨h.1 _, h.1 _, h.1 _, h.1 _, h.1 _⟩

/-- A package is shown exactly where its directory is not hidden. -/
theorem listed_eq_some {name : QString} :
    listed models name = some node
      ↔ isHidden name = false ∧ models[name]? = some node := by
  unfold listed
  by_cases hhidden : isHidden name = true
  · rw [if_pos hhidden, hhidden]
    simp
  · rw [if_neg hhidden, Bool.eq_false_of_not_eq_true hhidden]
    simp

/-- The manifest of a package is read from its directory. -/
theorem Publishes.congr {models' : Models} {name : QString} {m : ModelManifest}
    (h : Publishes lib models name m)
    (heq : listed models' name = listed models name) :
    Publishes lib models' name m := by
  obtain ⟨node, hnode, hread⟩ := h
  exact ⟨node, heq.trans hnode, hread⟩

/-- What an entry needs to count as a package. -/
theorem scanEntry_ok {entry : QString × Node} {m : ModelManifest} :
    scanEntry lib chance entry = .ok m ↔ isDirectory (some entry.2) = true
      ∧ readManifest lib chance (.published entry.1) entry.2 = .ok m
      ∧ m.files ≠ [] := by
  unfold scanEntry
  constructor
  · intro h
    obtain ⟨_, hdir, h⟩ := bind_eq_ok.1 h
    obtain ⟨m', hread, h⟩ := bind_eq_ok.1 h
    obtain ⟨_, hfiles, h⟩ := bind_eq_ok.1 h
    injection h with h
    exact ⟨require_eq_ok.1 hdir, h ▸ hread, h ▸ require_eq_ok.1 hfiles⟩
  · intro h
    obtain ⟨hdir, hread, hfiles⟩ := h
    exact bind_eq_ok.2 ⟨(), require_eq_ok.2 hdir, bind_eq_ok.2 ⟨m, hread,
      bind_eq_ok.2 ⟨(), require_eq_ok.2 hfiles, rfl⟩⟩⟩

/-- Failures only hide packages: what is found despite them is
there without them. -/
theorem scanEntry_calm {entry : QString × Node} {m : ModelManifest}
    (h : scanEntry lib chance entry = .ok m) :
    scanEntry lib {} entry = .ok m := by
  obtain ⟨hdir, hread, hfiles⟩ := scanEntry_ok.1 h
  exact scanEntry_ok.2 ⟨hdir, readManifest_calm hread _, hfiles⟩

/-- The converse, for an entry that can be looked into. -/
theorem scanEntry_open {entry : QString × Node} {m : ModelManifest}
    (hopen : Open chance entry.1) (h : scanEntry lib {} entry = .ok m) :
    scanEntry lib chance entry = .ok m := by
  obtain ⟨hdir, hread, hfiles⟩ := scanEntry_ok.1 h
  exact scanEntry_ok.2 ⟨hdir,
    (readManifest_open _ hopen.manifest hopen.openManifest
    hopen.readManifest).trans hread, hfiles⟩

/-- An entry that is no package is skipped by an ordinary error, and the scan
goes on with the next one. -/
theorem scanEntry_errs (entry : QString × Node) :
    Errs (scanEntry lib chance entry) :=
  .bind (.require _ _ _) fun _ =>
  .bind (readManifest_errs lib chance _ _) fun _ =>
    .bind (.require _ _ _) fun _ => .ok _

-- =================================================================== the scan

/-- The package of a directory, as a scan lists it. -/
def entryOf (lib : Library) (name : QString) (node : Node)
    (m : ModelManifest) : Published :=
  let directory := filePath lib.root name
  ⟨name, node, ⟨{ uri := qs "model://" ++ m.id, manifest := m }, directory,
    filePath directory m.entryPoint⟩⟩

/-- A package is found under the id of its manifest, which the
parser has checked. -/
theorem scanEntry_validId {entry : QString × Node} {m : ModelManifest}
    (h : scanEntry lib chance entry = .ok m) : validId m.id = true := by
  obtain ⟨document, hdocument⟩ := readManifest_ok (scanEntry_ok.1 h).2.1
  obtain ⟨uri, huri⟩ := (parsed_inspectable hdocument).named
  exact (modelUri_ok huri).1

/-- One turn of the loop: the package is listed, or the directory
is passed over. -/
theorem scanStep_cases (lib : Library) (chance : Chance) (s : Scan)
    (entry : QString × Node) :
    ∃ s', scanStep lib chance s entry = .ok s'
      ∧ ((s'.models = s.models
          ∧ (isHidden entry.1 = true ∨ ∀ m,
            scanEntry lib chance entry ≠ .ok m))
        ∨ ∃ m, isHidden entry.1 = false ∧ scanEntry lib chance entry = .ok m
          ∧ s'.models = s.models ++ [entryOf lib entry.1 entry.2 m]) := by
  unfold scanStep
  by_cases hhidden : isHidden entry.1 = true
  · rw [if_pos hhidden]
    exact ⟨s, rfl, .inl ⟨rfl, .inl hhidden⟩⟩
  · rw [if_neg hhidden]
    cases hentry : scanEntry lib chance entry with
    | ok m =>
        rw [ok_bind, modelUri_of_valid (scanEntry_validId hentry)]
        exact ⟨_, rfl, .inr ⟨m, Bool.eq_false_of_not_eq_true hhidden,
          rfl, rfl⟩⟩
    | error e =>
        obtain ⟨error, rfl⟩ := scanEntry_errs entry e hentry
        exact ⟨_, rfl, .inl ⟨rfl, .inr fun m h => nomatch h⟩⟩

/-- What a loop over some directories lists. -/
theorem scan_entries (lib : Library) (chance : Chance) :
    ∀ (entries : List (QString × Node)) (s : Scan), ∃ s',
      entries.foldlM (scanStep lib chance) s = .ok s'
        ∧ ∃ more, s'.models = s.models ++ more
        ∧ (more.map Published.name).Sublist (entries.map Prod.fst)
        ∧ ∀ p, p ∈ more ↔ ∃ entry ∈ entries, ∃ m, isHidden entry.1 = false
          ∧ scanEntry lib chance entry = .ok m
          ∧ p = entryOf lib entry.1 entry.2 m := by
  intro entries
  induction entries with
  | nil =>
      intro s
      exact ⟨s, rfl, [], (List.append_nil _).symm,
        List.Sublist.refl _, by simp⟩
  | cons entry rest ih =>
      intro s
      obtain ⟨t, hstep, hcases⟩ := scanStep_cases lib chance s entry
      obtain ⟨s', hrest, more, hmodels, hsub, hmore⟩ := ih t
      refine ⟨s', by rw [List.foldlM_cons, hstep, ok_bind, hrest], ?_⟩
      rcases hcases with ⟨hsame, hnot⟩ | ⟨m, hshown, hentry, hadded⟩
      · refine ⟨more, hmodels.trans (by rw [hsame]), hsub.cons _, fun p => ?_⟩
        rw [hmore]
        constructor
        · intro h
          obtain ⟨e, he, hp⟩ := h
          exact ⟨e, List.mem_cons_of_mem _ he, hp⟩
        · intro h
          obtain ⟨e, he, m, hshown, hread, hp⟩ := h
          rcases List.mem_cons.1 he with rfl | he
          · rcases hnot with hhidden | hnot
            · rw [hhidden] at hshown
              cases hshown
            · exact absurd hread (hnot m)
          · exact ⟨e, he, m, hshown, hread, hp⟩
      · refine ⟨entryOf lib entry.1 entry.2 m :: more, ?_,
          hsub.cons_cons _, fun p => ?_⟩
        · rw [hmodels, hadded, List.append_assoc]
          rfl
        · rw [List.mem_cons, hmore]
          constructor
          · intro h
            rcases h with rfl | ⟨e, he, hp⟩
            · exact ⟨entry, List.mem_cons_self .., m, hshown, hentry, rfl⟩
            · exact ⟨e, List.mem_cons_of_mem _ he, hp⟩
          · intro h
            obtain ⟨e, he, m', hshown', hread, hp⟩ := h
            rcases List.mem_cons.1 he with rfl | he
            · rw [hentry] at hread
              injection hread with hread
              exact .inl (hread ▸ hp)
            · exact .inr ⟨e, he, m', hshown', hread, hp⟩

/-- What the directory lists: nothing where it cannot be read, otherwise its
directories and links. -/
theorem mem_listing {entry : QString × Node} :
    entry ∈ listing chance models ↔ chance.fails .models = false
      ∧ models[entry.1]? = some entry.2 ∧ chance.fails (.entry entry.1) = false
      ∧ (isDirectory (some entry.2) = true ∨ entry.2 = .link) := by
  obtain ⟨name, node⟩ := entry
  unfold listing
  by_cases hmodels : chance.fails .models = true
  · rw [if_pos hmodels]
    simp [hmodels]
  · rw [if_neg hmodels, List.mem_filter,
      ExtTreeMap.mem_toList_iff_getElem?_eq_some]
    cases node <;> simp [hmodels, isDirectory]

/-- The file system lists each name once. -/
theorem nodup_listing : ((listing chance models).map Prod.fst).Nodup := by
  unfold listing
  split
  · exact List.nodup_nil
  · refine List.Nodup.sublist (List.filter_sublist.map Prod.fst) ?_
    rw [ExtTreeMap.map_fst_toList_eq_keys]
    exact ExtTreeMap.nodup_keys

/-- What a scan lists is published, and under its own name. -/
theorem scan_lists {s : Scan} (h : scan lib chance models = .ok s) :
    (s.models.map Published.name).Nodup
      ∧ ∀ p ∈ s.models, ∃ m, listed models p.name = some p.tree
        ∧ Publishes lib models p.name m ∧ p = entryOf lib p.name p.tree m := by
  unfold scan at h
  obtain ⟨_, -, h⟩ := bind_eq_ok.1 h
  obtain ⟨s', hloop, more, hmodels, hsub, hmore⟩ := scan_entries lib chance
    (listing chance models) {}
  rw [hloop] at h
  injection h with h
  subst h
  rw [List.nil_append] at hmodels
  rw [hmodels]
  refine ⟨nodup_listing.sublist hsub, fun p hp => ?_⟩
  obtain ⟨entry, hentry, m, hshown, hread, rfl⟩ := (hmore p).1 hp
  have hlisted : listed models entry.1 = some entry.2 :=
    listed_eq_some.2 ⟨hshown, (mem_listing.1 hentry).2.1⟩
  exact ⟨m, hlisted, ⟨entry.2, hlisted, scanEntry_calm hread⟩, rfl⟩

/-- A scan lists the packages into whose directories it can look. -/
theorem scan_sees {s : Scan} (h : scan lib chance models = .ok s)
    {name : QString}
    {m : ModelManifest} (hpublished : Publishes lib models name m)
    (hopen : Open chance name) :
    ∃ node, entryOf lib name node m ∈ s.models := by
  obtain ⟨node, hnode, hread⟩ := hpublished
  obtain ⟨hshown, hfind⟩ := listed_eq_some.1 hnode
  unfold scan at h
  obtain ⟨_, -, h⟩ := bind_eq_ok.1 h
  obtain ⟨s', hloop, more, hmodels, -, hmore⟩ := scan_entries lib chance
    (listing chance models) {}
  rw [hloop] at h
  injection h with h
  subst h
  have hentry : (name, node) ∈ listing chance models :=
    mem_listing.2 ⟨hopen.models, hfind, hopen.entry,
      .inl (scanEntry_ok.1 hread).1⟩
  refine ⟨node, ?_⟩
  rw [hmodels, List.nil_append]
  exact (hmore _).2 ⟨(name, node), hentry, m, hshown,
    scanEntry_open hopen hread, rfl⟩

/-- Where nothing fails, a scan has a result. -/
theorem scan_calm (lib : Library) (models : Models) (hcalm : Calm chance) :
    ∃ s, scan lib chance models = .ok s := by
  obtain ⟨s, hloop, -⟩ := scan_entries lib chance
    (listing chance models) {}
  refine ⟨s, bind_eq_ok.2 ⟨(), ?_, hloop⟩⟩
  exact bind_eq_ok.2 ⟨(), require_eq_ok.2 (hcalm.1 _),
    require_eq_ok.2 (hcalm.1 _)⟩

-- ============================================================== what is found

/-- No two published packages have one id. -/
def Unique (lib : Library) (models : Models) : Prop :=
  ∀ name name' m m', Publishes lib models name m →
    Publishes lib models name' m' →
    m.id = m'.id → name = name'

/-- What is thrown when a URI names two packages. -/
def ambiguous : Exn :=
  err .AlreadyExists "Ambiguous model URI: duplicate manifest id"

/-- The packages of one id in a scan: there is at most one. -/
theorem Unique.filter_cases (h : Unique lib models) {s : Scan}
    (hscan : scan lib chance models = .ok s) (id : QString) :
    (s.models.filter fun p => p.model.record.manifest.id = id) = []
      ∨ ∃ p, (s.models.filter fun p => p.model.record.manifest.id = id)
        = [p] := by
  obtain ⟨hnodup, hlists⟩ := scan_lists hscan
  have hnodup := hnodup.sublist (List.filter_sublist
    (p := fun p => decide (p.model.record.manifest.id = id)).map
      Published.name)
  have hmem : ∀ p ∈ s.models.filter (fun p => p.model.record.manifest.id = id),
      ∃ m, Publishes lib models p.name m ∧ m.id = id := by
    intro p hp
    obtain ⟨hp, hid⟩ := List.mem_filter.1 hp
    obtain ⟨m, -, hpublished, heq⟩ := hlists p hp
    rw [heq] at hid
    exact ⟨m, hpublished, of_decide_eq_true hid⟩
  cases hfilter : s.models.filter fun p => p.model.record.manifest.id = id with
  | nil => exact .inl rfl
  | cons p rest =>
      rw [hfilter] at hnodup hmem
      cases rest with
      | nil => exact .inr ⟨p, rfl⟩
      | cons q rest =>
          obtain ⟨m, hp, hm⟩ := hmem p (by simp)
          obtain ⟨m', hq, hm'⟩ := hmem q (by simp)
          have hname := h _ _ _ _ hp hq (hm.trans hm'.symm)
          simp [hname] at hnodup

/-- A scan never reports an ambiguous id. Only the look-up of one id can. -/
theorem scan_error {e : Exn} (h : scan lib chance models = .error e) :
    e ≠ ambiguous := by
  obtain ⟨s, hloop, -⟩ := scan_entries lib chance (listing chance models) {}
  unfold scan own require at h
  rw [hloop] at h
  by_cases hroot : chance.fails .makeRoot = false
  · rw [if_pos hroot, ok_bind] at h
    by_cases hlock : chance.fails .lock = false
    · rw [if_pos hlock, ok_bind] at h
      cases h
    · rw [if_neg hlock] at h
      injection h with h
      exact h ▸ by decide
  · rw [if_neg hroot] at h
    injection h with h
    exact h ▸ by decide

theorem modelId_error {uri : QString} {e : Exn} (h : modelId uri = .error e) :
    e ≠ ambiguous := by
  unfold modelId at h
  split at h
  · cases h
  · injection h with h
    exact h ▸ by decide

/-- Where ids are unique no URI is ambiguous, whatever fails. -/
theorem find_unambiguous (h : Unique lib models) (chance : Chance)
    (uri : QString) : find lib chance uri models ≠ .error ambiguous := by
  intro hfind
  unfold find at hfind
  cases hid : modelId uri with
  | error e =>
      rw [hid] at hfind
      injection hfind with hfind
      exact modelId_error hid hfind
  | ok id =>
      rw [hid, ok_bind] at hfind
      cases hscan : scan lib chance models with
      | error e =>
          rw [hscan] at hfind
          injection hfind with hfind
          exact scan_error hscan hfind
      | ok s =>
          rw [hscan, ok_bind] at hfind
          rcases h.filter_cases hscan id with hnone | ⟨p, hone⟩
          · rw [hnone] at hfind
            injection hfind with hfind
            exact absurd hfind (by decide)
          · rw [hone] at hfind
            cases hfind

/-- What is found is published, under the id of the URI. -/
theorem find_ok {uri : QString} {p : Published}
    (h : find lib chance uri models = .ok p) :
    ∃ m, listed models p.name = some p.tree
      ∧ Publishes lib models p.name m ∧ p = entryOf lib p.name p.tree m
      ∧ modelId uri = .ok m.id := by
  unfold find at h
  obtain ⟨id, hid, h⟩ := bind_eq_ok.1 h
  obtain ⟨s, hscan, h⟩ := bind_eq_ok.1 h
  split at h
  case h_1 => cases h
  case h_3 => cases h
  case h_2 found hone =>
    injection h with h
    subst h
    have hmem := List.mem_filter.1 (hone ▸ List.mem_singleton_self found)
    obtain ⟨m, hlisted, hpublished, heq⟩ := (scan_lists hscan).2 found hmem.1
    have hm := of_decide_eq_true hmem.2
    rw [heq] at hm
    exact ⟨m, hlisted, hpublished, heq, hm ▸ hid⟩

/-- Where nothing fails and ids are unique, the published package is found. -/
theorem find_published (h : Unique lib models) (hcalm : Calm chance)
    {name : QString}
    {m : ModelManifest} (hpublished : Publishes lib models name m)
    {uri : QString} (huri : modelUri m.id = .ok uri) :
    ∃ node, listed models name = some node
      ∧ find lib chance uri models = .ok (entryOf lib name node m) := by
  obtain ⟨s, hscan⟩ := scan_calm lib models hcalm
  obtain ⟨node, hmem⟩ := scan_sees hscan hpublished (hcalm.open name)
  have hfilter : entryOf lib name node m
      ∈ s.models.filter fun p => p.model.record.manifest.id = m.id :=
    List.mem_filter.2 ⟨hmem, decide_eq_true rfl⟩
  obtain ⟨m', hlisted, -, -⟩ := (scan_lists hscan).2 _ hmem
  refine ⟨node, hlisted, ?_⟩
  unfold find
  rw [modelId_modelUri huri, ok_bind, hscan, ok_bind]
  rcases h.filter_cases hscan m.id with hnone | ⟨p, hone⟩
  · rw [hnone] at hfilter
    cases hfilter
  · rw [hone] at hfilter ⊢
    rw [List.mem_singleton.1 hfilter]

end LocalLLM.ModelsDirectory
