/-
Names that become paths.

# Walking

A path is walked part by part (`enter`): an empty part and `.` stay, `..` goes
up, any other name goes down. A list of names only ever goes down.

# Identifiers

The id of a model is the name of its directory. `validId` is `Portable`, but
for the line feed that `$` leaves out (`model_identifiers`).

# Paths in a package

What `relativeFile` lets through goes down (`safePath_of_relativeFile`). The
inventory is checked for collisions path by path, and the manifest itself is
not among the paths that were seen (`manifest_paths`).
-/
import LocalLLM.Proofs.Manifest

namespace LocalLLM

-- ==================================================================== walking

/-- One part of a path. -/
def enter (directory : List QString) (part : QString) : List QString :=
  if part = [] ∨ part = qs "." then directory
  else if part = qs ".." then directory.dropLast
  else directory ++ [part]

/-- The parts of a path. -/
def pathParts (path : QString) : List QString := path.splitOn (qc '/')

/-- Where a path leads to. -/
def resolvePath (directory : List QString) (path : QString) : List QString :=
  (pathParts path).foldl enter directory

/-- A part that goes down. -/
def Named (part : QString) : Prop := part ≠ [] ∧ part ≠ qs "." ∧ part ≠ qs ".."

/-- Walking into a name goes one level down. Only dots and empty parts do
otherwise. -/
theorem enter_named {directory : List QString} {part : QString}
    (h : Named part) : enter directory part = directory ++ [part] := by
  unfold enter
  rw [if_neg (not_or.2 ⟨h.1, h.2.1⟩), if_neg h.2.2]

/-- A path of names goes down one level for each of them. -/
theorem enter_all {parts : List QString} (h : ∀ part ∈ parts, Named part) :
    ∀ directory : List QString,
      parts.foldl enter directory = directory ++ parts := by
  induction parts with
  | nil => exact fun directory => (List.append_nil directory).symm
  | cons part rest ih =>
      intro directory
      obtain ⟨hpart, hrest⟩ := List.forall_mem_cons.1 h
      rw [List.foldl_cons, enter_named hpart, ih hrest]
      simp

/-- Splitting at slashes respects joining by one. -/
theorem pathParts_append (first second : QString) :
    pathParts (first ++ qc '/' :: second)
      = pathParts first ++ pathParts second := by
  unfold pathParts
  rw [List.splitOn_eq_splitOnP, List.splitOn_eq_splitOnP,
    List.splitOn_eq_splitOnP]
  exact List.splitOnP_append_cons first second (by simp)

/-- A path is walked in two parts, the second from where the first has led. -/
theorem resolvePath_append (directory : List QString)
    (first second : QString) :
    resolvePath directory (first ++ qc '/' :: second)
      = resolvePath (resolvePath directory first) second := by
  unfold resolvePath
  rw [pathParts_append, List.foldl_append]

/-- A name without a slash is one part. -/
theorem pathParts_name {name : QString} (h : qc '/' ∉ name) :
    pathParts name = [name] := by
  unfold pathParts
  rw [List.splitOn_eq_splitOnP]
  refine List.splitOnP_eq_singleton fun u hu => ?_
  rw [beq_eq_false_iff_ne]
  exact fun heq => h (heq ▸ hu)

theorem resolvePath_name {name : QString} (hslash : qc '/' ∉ name)
    (h : Named name) (directory : List QString) :
    resolvePath directory name = directory ++ [name] := by
  unfold resolvePath
  rw [pathParts_name hslash]
  exact enter_named h

/-- A relative path is walked from the directory it is put behind. -/
theorem resolvePath_filePath {path : QString}
    (hhead : path.head? ≠ some (qc '/')) (hne : path ≠ []) (root : QString) :
    resolvePath [] (filePath root path)
      = resolvePath (resolvePath [] root) path := by
  unfold filePath
  rw [if_neg hhead]
  by_cases hroot : root = []
  · subst hroot
    rw [if_pos rfl]
    rfl
  · rw [if_neg hroot]
    by_cases hlast : root.getLast? = some (qc '/')
    · rw [if_pos (Or.inl hlast)]
      obtain ⟨front, rfl⟩ : ∃ front, root = front ++ [qc '/'] :=
        ⟨root.dropLast, (List.dropLast_append_getLast? _ hlast).symm⟩
      have hfront : resolvePath [] (front ++ [qc '/'])
          = resolvePath [] front := by
        rw [resolvePath_append]
        rfl
      rw [hfront, List.append_assoc, List.singleton_append, resolvePath_append]
    · rw [if_neg (not_or.2 ⟨hlast, hne⟩), List.append_assoc,
        List.singleton_append,
        resolvePath_append]

-- ================================================================ identifiers

/-- `[a-z0-9]([a-z0-9._-]{0,126}[a-z0-9])?`, as a language. -/
def IdShape (s : QString) : Prop :=
  (∃ c, idEdge c = true ∧ s = [c])
    ∨ ∃ c inner d, idEdge c = true ∧ idEdge d = true
      ∧ (∀ u ∈ inner, idInner u = true)
      ∧ inner.length ≤ 126 ∧ s = c :: (inner ++ [d])

/-- What is before the first dot. -/
def stem (s : QString) : QString := s.takeWhile (· != qc '.')

/-- A portable id. -/
def Portable (s : QString) : Prop := IdShape s ∧ stem s ∉ reservedNames

/-- The units of an id are lower-case letters, digits, dots,
underscores and hyphens. -/
theorem IdShape.inner {s : QString} (h : IdShape s) :
    ∀ u ∈ s, idInner u = true := by
  have hedge : ∀ v, idEdge v = true → idInner v = true := fun v hv => by
    unfold idInner
    rw [hv]
    rfl
  rcases h with ⟨c, hc, rfl⟩ | ⟨c, inner, d, hc, hd, hinner, -, rfl⟩
  · intro u hu
    rw [List.mem_singleton.1 hu]
    exact hedge c hc
  · intro u hu
    rcases List.mem_cons.1 hu with rfl | hu
    · exact hedge u hc
    · rcases List.mem_append.1 hu with hu | hu
      · exact hinner u hu
      · rw [List.mem_singleton.1 hu]
        exact hedge d hd

/-- The pattern for ids, read as a condition on the letters. -/
theorem idCore_iff {s : QString} : idCore s = true ↔ IdShape s := by
  cases s with
  | nil =>
      constructor
      · intro h
        cases h
      · intro h
        rcases h with ⟨c, -, hs⟩ | ⟨c, inner, d, -, -, -, -, hs⟩
        · cases hs
        · cases hs
  | cons c rest =>
      unfold idCore
      simp only [Bool.and_eq_true, Bool.or_eq_true, beq_iff_eq,
        decide_eq_true_eq,
        List.all_eq_true]
      constructor
      · intro h
        obtain ⟨hc, hnil | ⟨⟨hlength, hinner⟩, hlast⟩⟩ := h
        · exact Or.inl ⟨c, hc, by rw [hnil]⟩
        · obtain ⟨d, hd, hedge⟩ :
              ∃ d, rest.getLast? = some d ∧ idEdge d = true := by
            cases hlast? : rest.getLast? with
            | none =>
                rw [hlast?] at hlast
                cases hlast
            | some d =>
                rw [hlast?] at hlast
                exact ⟨d, rfl, hlast⟩
          have hsplit : rest.dropLast ++ [d] = rest :=
            List.dropLast_append_getLast? d hd
          refine Or.inr ⟨c, rest.dropLast, d, hc, hedge, hinner,
            ?_, by rw [hsplit]⟩
          rw [List.length_dropLast]
          omega
      · intro h
        rcases h with ⟨c', hc, hs⟩ | ⟨c', inner, d, hc, hd,
          hinner, hlength, hs⟩
        · obtain ⟨rfl, rfl⟩ := List.cons.inj hs
          exact ⟨hc, Or.inl rfl⟩
        · obtain ⟨rfl, rfl⟩ := List.cons.inj hs
          refine ⟨hc, Or.inr ⟨⟨?_, ?_⟩, ?_⟩⟩
          · rw [List.length_append, List.length_singleton]
            omega
          · rw [List.dropLast_concat]
            exact hinner
          · rw [List.getLast?_concat]
            exact hd

/-- No reserved name has a dot or a line feed. -/
theorem reservedNames_plain :
    ∀ w ∈ reservedNames, qc '.' ∉ w ∧ qc '\n' ∉ w := by decide

/-- A name without dots is what is before the first dot, when it is the
beginning and a dot or the end comes next. -/
theorem stem_eq_iff {w s : QString} (hdot : qc '.' ∉ w) :
    stem s = w ↔ w <+: s ∧ ((s.drop w.length).head? = some (qc '.')
      ∨ s.drop w.length = []) := by
  unfold stem
  constructor
  · intro h
    have hsplit := List.takeWhile_append_dropWhile
      (p := (· != qc '.')) (l := s)
    rw [h] at hsplit
    have hdrop : s.drop w.length = s.dropWhile (· != qc '.') := by
      rw [← hsplit, List.drop_left]
      rw [hsplit]
    refine ⟨⟨_, hsplit⟩, ?_⟩
    rw [hdrop]
    cases hrest : s.dropWhile (· != qc '.') with
    | nil => exact Or.inr rfl
    | cons c rest =>
        have hstop := List.head_dropWhile_not (· != qc '.') (l := s)
          (by simp [hrest])
        refine Or.inl ?_
        simpa [hrest] using hstop
  · intro h
    obtain ⟨⟨rest, rfl⟩, hnext⟩ := h
    rw [List.drop_left] at hnext
    have hw : ∀ u ∈ w, (u != qc '.') = true := by
      intro u hu
      rw [bne_iff_ne]
      exact fun heq => hdot (heq ▸ hu)
    rw [List.takeWhile_append_of_pos hw]
    rcases hnext with hnext | hnext
    · cases rest with
      | nil => cases hnext
      | cons c rest =>
          injection hnext with hnext
          subst hnext
          simp
    · rw [hnext]
      simp

/-- A line feed is none of those letters. The end of the pattern admits one
behind an id all the same. -/
theorem IdShape.no_feed {s : QString} (h : IdShape s) : qc '\n' ∉ s := by
  intro hmem
  exact absurd (h.inner _ hmem) (by decide)

/-- The reserved names, of an id or of one with a line feed behind it. -/
theorem reservedId_iff {body rest : QString} (hbody : qc '\n' ∉ body)
    (hrest : rest = [] ∨ rest = [qc '\n']) :
    reservedId (body ++ rest) = true ↔ stem body ∈ reservedNames := by
  unfold reservedId
  rw [List.any_eq_true]
  have hname : ∀ w ∈ reservedNames,
      (w.isPrefixOf (body ++ rest)
        && (((body ++ rest).drop w.length).head? == some (qc '.')
        || atEnd ((body ++ rest).drop w.length))) = true ↔ stem body = w := by
    intro w hw
    obtain ⟨hdot, hfeed⟩ := reservedNames_plain w hw
    rw [stem_eq_iff hdot]
    unfold atEnd
    simp only [Bool.and_eq_true, Bool.or_eq_true, beq_iff_eq,
      List.isPrefixOf_iff_prefix]
    -- a name does not reach into the line feed
    have hinside : w <+: body ++ rest ↔ w <+: body := by
      constructor
      · intro hle
        rcases hrest with rfl | rfl
        · rwa [List.append_nil] at hle
        · rcases List.prefix_concat_iff.1 hle with heq | hle
          · exact absurd (heq ▸ List.mem_append_right body
              (List.mem_singleton_self _)) hfeed
          · exact hle
      · exact fun hle => hle.trans (List.prefix_append body rest)
    rw [hinside]
    refine and_congr_right fun hle => ?_
    obtain ⟨tail, rfl⟩ := hle
    rw [List.append_assoc, List.drop_left, List.drop_left]
    have htail : qc '\n' ∉ tail := fun h => hbody (List.mem_append_right w h)
    rcases hrest with rfl | rfl
    · rw [List.append_nil]
      have hne : tail ≠ [qc '\n'] :=
        fun h => htail (h ▸ List.mem_singleton_self _)
      simp [hne]
    · cases tail with
      | nil => simp
      | cons c tail => simp
  constructor
  · intro h
    obtain ⟨w, hw, hmatch⟩ := h
    exact ((hname w hw).1 hmatch) ▸ hw
  · intro h
    exact ⟨_, h, (hname _ h).2 rfl⟩

/-- A name that ends in no line feed is an id when it is portable. -/
theorem validId_iff {s : QString} (hlast : s.getLast? ≠ some (qc '\n')) :
    validId s = true ↔ Portable s := by
  unfold validId dollarBody Portable
  rw [if_neg hlast, Bool.and_eq_true, idCore_iff]
  refine and_congr_right fun hshape => ?_
  have hreserved := reservedId_iff hshape.no_feed (Or.inl rfl)
  rw [List.append_nil] at hreserved
  rw [← hreserved]
  simp

/-- With a line feed behind it, a portable id is accepted too. -/
theorem validId_feed {body : QString} :
    validId (body ++ [qc '\n']) = true ↔ Portable body := by
  unfold validId dollarBody Portable
  rw [List.getLast?_concat, if_pos rfl, List.dropLast_concat,
    Bool.and_eq_true, idCore_iff]
  refine and_congr_right fun hshape => ?_
  rw [← reservedId_iff hshape.no_feed (Or.inr rfl)]
  simp

/-- What an id is promised to be. -/
structure IdentifierContract (s : QString) : Prop where
  accepted : (∃ uri, modelUri s = .ok uri) ↔ Portable s
  forth : ∀ uri, modelUri s = .ok uri → modelId uri = .ok s
  back : ∀ id, modelId s = .ok id → modelUri id = .ok s
  /-- Lower-case letters, digits, dots, underscores and hyphens only. -/
  units : ∀ uri, modelUri s = .ok uri → ∀ u ∈ s, idInner u = true
  /-- One part of a path, which no dot begins or ends. -/
  component : ∀ uri, modelUri s = .ok uri → pathParts s = [s] ∧ Named s
    ∧ s.head? ≠ some (qc '.') ∧ s.getLast? ≠ some (qc '.')
  /-- The directory it is installed in is directly inside the catalog's. -/
  inside : ∀ uri, modelUri s = .ok uri → ∀ root,
    resolvePath [] (filePath root s) = resolvePath [] root ++ [s]

/-- An id has a URI exactly when the pattern admits it. -/
theorem modelUri_isOk {s : QString} :
    (∃ uri, modelUri s = .ok uri) ↔ validId s = true := by
  constructor
  · intro h
    obtain ⟨uri, h⟩ := h
    exact (modelUri_ok h).1
  · intro h
    exact ⟨_, modelUri_of_valid h⟩

theorem Portable.ends {s : QString} (h : Portable s) :
    s ≠ [] ∧ s.head? ≠ some (qc '.') ∧ s.getLast? ≠ some (qc '.') := by
  have hedge : ∀ c, idEdge c = true → c ≠ qc '.' := by
    rintro c hc rfl
    exact absurd hc (by decide)
  rcases h.1 with ⟨c, hc, rfl⟩ | ⟨c, inner, d, hc, hd, -, -, rfl⟩
  · exact ⟨List.cons_ne_nil _ _, fun h => hedge c hc (Option.some.inj h),
      fun h => hedge c hc (Option.some.inj h)⟩
  · refine ⟨List.cons_ne_nil _ _, fun h => hedge c hc (Option.some.inj h),
      fun h => ?_⟩
    rw [← List.cons_append, List.getLast?_concat] at h
    exact hedge d hd (Option.some.inj h)

/-- A portable name is one name: no slash, no dots alone, not empty. -/
theorem Portable.named {s : QString} (h : Portable s) :
    qc '/' ∉ s ∧ Named s := by
  obtain ⟨hne, hhead, -⟩ := h.ends
  refine ⟨fun hmem => idInner_ne_slash (h.1.inner _ hmem) rfl, hne, ?_, ?_⟩
  · intro heq
    exact hhead (heq ▸ rfl)
  · intro heq
    exact hhead (heq ▸ rfl)

/-- Every string meets the contract, but for a portable id with a line feed
behind it: the pattern ends in a `$`, which matches before such a line feed. -/
theorem model_identifiers (s : QString) :
    IdentifierContract s ↔ ¬ ∃ body, Portable body
      ∧ s = body ++ [qc '\n'] := by
  constructor
  · rintro h ⟨body, hbody, rfl⟩
    have hportable : Portable (body ++ [qc '\n']) :=
      h.accepted.1 (modelUri_isOk.2 (validId_feed.2 hbody))
    exact hportable.1.no_feed
      (List.mem_append_right body (List.mem_singleton_self _))
  · intro h
    have hvalid : validId s = true ↔ Portable s := by
      by_cases hlast : s.getLast? = some (qc '\n')
      · have hsplit := List.dropLast_append_getLast? _ hlast
        have hbody : ¬ Portable s.dropLast :=
          fun hbody => h ⟨_, hbody, hsplit.symm⟩
        have hfeed : qc '\n' ∈ s :=
          hsplit ▸ List.mem_append_right _ (List.mem_singleton_self _)
        have hrefused : ¬ validId s = true := by
          rw [← hsplit, validId_feed]
          exact hbody
        exact ⟨fun hv => absurd hv hrefused, fun hp =>
          absurd hfeed hp.1.no_feed⟩
      · exact validId_iff hlast
    have hportable : ∀ uri, modelUri s = .ok uri → Portable s :=
      fun uri huri => hvalid.1 (modelUri_ok huri).1
    refine ⟨modelUri_isOk.trans hvalid, fun uri => modelId_modelUri,
      ?_, ?_, ?_, ?_⟩
    · intro id hid
      obtain ⟨hv, huri⟩ := modelId_ok hid
      exact huri ▸ modelUri_of_valid hv
    · exact fun uri huri => (hportable uri huri).1.inner
    · intro uri huri
      obtain ⟨hslash, hnamed⟩ := (hportable uri huri).named
      exact ⟨pathParts_name hslash, hnamed, (hportable uri huri).ends.2⟩
    · intro uri huri root
      obtain ⟨hslash, hnamed⟩ := (hportable uri huri).named
      have hhead : s.head? ≠ some (qc '/') :=
        fun h => hslash (List.mem_of_mem_head? h)
      rw [resolvePath_filePath hhead hnamed.1, resolvePath_name hslash hnamed]

/-- An id with a line feed behind it is accepted. -/
theorem feed_accepted : ¬ ∀ s, IdentifierContract s := by
  intro hall
  have hportable := (hall (qs "abc\n")).accepted.1 ⟨_, rfl⟩
  exact hportable.1.no_feed (by decide)

-- ========================================================= paths in a package

/-- A path that stays strictly inside the directory it is put behind. -/
structure SafePath (path : QString) : Prop where
  relative : path.head? ≠ some (qc '/')
  units : qc '\\' ∉ path ∧ qc ':' ∉ path ∧ 0 ∉ path
  parts : pathParts path ≠ [] ∧ ∀ part ∈ pathParts path, Named part
    ∧ part.getLast? ≠ some (qc '.') ∧ part.getLast? ≠ some (qc ' ')
  /-- On the way, and at its end. -/
  inside : ∀ root k, 0 < k → k ≤ (pathParts path).length →
    ∃ part rest, ((pathParts path).take k).foldl enter (resolvePath [] root)
      = resolvePath [] root ++ part :: rest
  joined : ∀ root, resolvePath [] (filePath root path)
    = resolvePath [] root ++ pathParts path

theorem pathParts_ne_nil (path : QString) : pathParts path ≠ [] := by
  unfold pathParts
  rw [List.splitOn_eq_splitOnP]
  exact List.splitOnP_ne_nil _ _

/-- What `relativeFile` lets through. -/
theorem safePath_of_relativeFile {path : QString}
    (h : ManifestObject.relativeFile path = true) : SafePath path := by
  unfold ManifestObject.relativeFile at h
  simp only [Bool.and_eq_true, Bool.not_eq_true', decide_eq_true_eq,
    List.contains_eq_mem, decide_eq_false_iff_not, List.all_eq_true] at h
  obtain ⟨⟨⟨⟨⟨⟨hne, -⟩, hhead⟩, hback⟩, hcolon⟩, hnul⟩, hparts⟩ := h
  have hpart : ∀ part ∈ pathParts path, Named part
      ∧ part.getLast? ≠ some (qc '.') ∧ part.getLast? ≠ some (qc ' ') := by
    intro part hmem
    have hok := hparts part hmem
    unfold ManifestObject.pathPart at hok
    simp only [Bool.and_eq_true, decide_eq_true_eq] at hok
    obtain ⟨⟨⟨⟨hempty, hdot⟩, hup⟩, hend⟩, hblank⟩ := hok
    exact ⟨⟨hempty, hdot, hup⟩, hend, hblank⟩
  refine ⟨hhead, ⟨hback, hcolon, hnul⟩, ⟨pathParts_ne_nil path, hpart⟩, ?_, ?_⟩
  · intro root k hk hlength
    rw [enter_all fun part hmem => (hpart part (List.mem_of_mem_take hmem)).1]
    cases htake : (pathParts path).take k with
    | nil =>
        have hzero := congrArg List.length htake
        rw [List.length_take, List.length_nil] at hzero
        omega
    | cons part rest => exact ⟨part, rest, rfl⟩
  · intro root
    rw [resolvePath_filePath hhead hne]
    exact enter_all (fun part hmem => (hpart part hmem).1) _

namespace ManifestObject

/-- What the paths of a manifest are promised to be. -/
structure PathContract (l : Letters) (m : ModelManifest) : Prop where
  entry : (m.entryPoint = qs "." ∧ m.format = qs "mlx") ∨ SafePath m.entryPoint
  projector : m.projector = [] ∨ SafePath m.projector
  files : ∀ file ∈ m.files, SafePath file.path
  /-- No two fall together on a file system that ignores case. -/
  distinct : ((qs "manifest.json" :: m.files.map ModelFile.path).map
    l.toCaseFolded).Nodup

variable {l : Letters} {o : JsonObject}

/-- The path of a record. -/
def pathOf (value : Json) : QString :=
  Json.toText (Json.lookup (Json.toObject (some value)) (qs "path"))

/-- The path of an inventory entry is stored as it stands in the document. -/
theorem takeFile_path {value : Json} {seen : List QString} {file : ModelFile}
    (h : takeFile l value seen = .ok file) : file.path = pathOf value := by
  obtain ⟨-, h⟩ := demand_bind_eq_ok.1 h
  obtain ⟨-, h⟩ := demand_bind_eq_ok.1 h
  obtain ⟨path, hpath, h⟩ := bind_eq_ok.1 h
  obtain ⟨_, -, h⟩ := bind_eq_ok.1 h
  obtain ⟨-, h⟩ := demand_bind_eq_ok.1 h
  obtain ⟨-, h⟩ := demand_bind_eq_ok.1 h
  obtain ⟨digest, -, h⟩ := bind_eq_ok.1 h
  obtain ⟨-, h⟩ := demand_bind_eq_ok.1 h
  injection h with h
  subst h
  unfold pathOf
  rw [(text_eq_ok.1 hpath).1]
  rfl

/-- The inventory: safe paths, distinct from each other and from
those before. -/
theorem takeFiles_paths {values : List Json} :
    ∀ {seen : List QString} {files : List ModelFile},
      takeFiles l values seen = .ok files →
      (∀ file ∈ files, SafePath file.path ∧ l.toCaseFolded file.path ∉ seen)
        ∧ (files.map fun file => l.toCaseFolded file.path).Nodup
        ∧ files.map ModelFile.path = values.map pathOf := by
  induction values with
  | nil =>
      intro seen files h
      injection h with h
      subst h
      exact ⟨List.forall_mem_nil _, List.nodup_nil, rfl⟩
  | cons value rest ih =>
      intro seen files h
      obtain ⟨file, hfile, h⟩ := bind_eq_ok.1 h
      obtain ⟨others, hothers, h⟩ := bind_eq_ok.1 h
      injection h with h
      subst h
      obtain ⟨hrelative, -, hseen⟩ := (takeFile_facts hfile).place
      obtain ⟨hsafe, hnodup, hpaths⟩ := ih hothers
      refine ⟨?_, ?_, ?_⟩
      · refine List.forall_mem_cons.2
          ⟨⟨safePath_of_relativeFile hrelative, hseen⟩, ?_⟩
        exact fun other hother => ⟨(hsafe other hother).1,
          fun hmem => (hsafe other hother).2 (List.mem_cons_of_mem _ hmem)⟩
      · rw [List.map_cons, List.nodup_cons]
        refine ⟨fun hmem => ?_, hnodup⟩
        obtain ⟨other, hother, heq⟩ := List.mem_map.1 hmem
        exact (hsafe other hother).2 (heq ▸ List.mem_cons_self)
      · rw [List.map_cons, List.map_cons, hpaths, takeFile_path hfile]

/-- The paths of a manifest keep their promise just where no path of the
inventory is the manifest's own in other letters. The parser compares the paths
of the inventory with each other, and not with the one that is always there. -/
theorem manifest_paths (l : Letters) (o : JsonObject) {m : ModelManifest}
    (h : parseModelManifest l o = .ok m) :
    PathContract l m ↔ ∀ value ∈ Json.toArray (Json.lookup o (qs "files")),
      l.toCaseFolded (pathOf value) ≠ l.toCaseFolded (qs "manifest.json") := by
  obtain ⟨_, -, h⟩ := bind_eq_ok.1 h
  obtain ⟨_, -, h⟩ := bind_eq_ok.1 h
  obtain ⟨id, -, h⟩ := bind_eq_ok.1 h
  obtain ⟨architecture, -, h⟩ := bind_eq_ok.1 h
  obtain ⟨format, -, h⟩ := bind_eq_ok.1 h
  obtain ⟨quantization, -, h⟩ := bind_eq_ok.1 h
  obtain ⟨contextLength, -, h⟩ := bind_eq_ok.1 h
  obtain ⟨capabilities, -, h⟩ := bind_eq_ok.1 h
  obtain ⟨entryPoint, hentry, h⟩ := bind_eq_ok.1 h
  obtain ⟨projector, hprojector, h⟩ := bind_eq_ok.1 h
  obtain ⟨files, hfiles, h⟩ := bind_eq_ok.1 h
  injection h with h
  subst h
  obtain ⟨-, hfiles⟩ := demand_bind_eq_ok.1 hfiles
  obtain ⟨-, hfiles⟩ := demand_bind_eq_ok.1 hfiles
  obtain ⟨hsafe, hnodup, hpaths⟩ := takeFiles_paths hfiles
  have hentry : (entryPoint = qs "." ∧ format = qs "mlx")
      ∨ SafePath entryPoint :=
    (entryPointOf_eq_ok.1 hentry).2.1.imp_right safePath_of_relativeFile
  have hprojector : projector = [] ∨ SafePath projector := by
    by_cases hgiven : Json.contains o (qs "projector") = true
    · exact Or.inr (safePath_of_relativeFile
        ((projectorOf_given hgiven).1 hprojector).2.2.2.1)
    · unfold projectorOf at hprojector
      rw [if_neg hgiven] at hprojector
      injection hprojector with hprojector
      exact Or.inl hprojector.symm
  have hdistinct : ((qs "manifest.json" :: files.map ModelFile.path).map
      l.toCaseFolded).Nodup ↔ ∀ value ∈ Json.toArray
        (Json.lookup o (qs "files")),
        l.toCaseFolded (pathOf value)
          ≠ l.toCaseFolded (qs "manifest.json") := by
    have hnodup : ((files.map ModelFile.path).map l.toCaseFolded).Nodup := by
      rw [List.map_map]
      exact hnodup
    rw [List.map_cons, List.nodup_cons, and_iff_left hnodup,
      hpaths, List.map_map]
    simp
  exact ⟨fun hcontract => hdistinct.1 hcontract.distinct,
    fun hother => ⟨hentry, hprojector, fun file hfile => (hsafe file hfile).1,
      hdistinct.2 hother⟩⟩

/-- The manifest of the sample. -/
theorem manifest_paths_sample :
    ∃ m, parseModelManifest asciiLetters sampleManifest = .ok m
    ∧ PathContract asciiLetters m := by
  have hparse : parseModelManifest asciiLetters sampleManifest = .ok
      ⟨qs "tiny", qs "llama", qs "gguf", qs "q4", 2048, [qs "chat"],
        qs "model.gguf",
        [⟨qs "model.gguf", 7, List.replicate 64 (qc 'a')⟩], []⟩ := by
    rfl
  refine ⟨_, hparse, (manifest_paths asciiLetters sampleManifest hparse).2 ?_⟩
  decide +kernel

/-- A manifest whose inventory has a file of the manifest's name,
in capitals. -/
def loudManifest : JsonObject :=
  Json.insert sampleManifest (qs "files") (.array [.object (Json.ofMembers
    [(qs "path", .string (qs "MANIFEST.JSON")), (qs "size", jsonInt 7),
      (qs "sha256", .string (List.replicate 64 (qc 'a')))])])

/-- It is accepted. -/
theorem manifest_in_inventory :
    ¬ ∀ (l : Letters) (o : JsonObject) (m : ModelManifest),
      parseModelManifest l o = .ok m → PathContract l m := by
  intro hall
  have hcontract := hall asciiLetters loudManifest _ rfl
  exact absurd hcontract.distinct (by decide)

end ManifestObject

end LocalLLM
