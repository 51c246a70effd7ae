/-
A manifest that was read can be written and read again.

Each part of the parser looks at one member. So a part that has read a value
reads the same value from any object in which its member is that value
written (`idOf_eq_ok`, `contextLengthOf_eq_ok` and so on); what is left is
what the object of a manifest has under each name.

A manifest that is not read is refused with an `Error` (`parse_errs`).
-/
import LocalLLM.Lib.Exec
import LocalLLM.Core.Objects
import LocalLLM.Models.ManifestObject

namespace LocalLLM.ManifestObject

open Json

variable {l : Letters} {o : JsonObject}

-- ==================================================================== members

@[simp] theorem demand_eq_ok {condition : Prop} [Decidable condition]
    {message : QString} {u : Unit} :
    demand condition message = .ok u ↔ condition := by
  unfold demand
  by_cases h : condition <;> simp [h]

/-- A check before the rest. -/
theorem demand_bind_eq_ok {condition : Prop} [Decidable condition]
    {message : QString} {α : Type} {rest : Unit → Except Exn α} {a : α} :
    (demand condition message >>= rest) = .ok a
      ↔ condition ∧ rest () = .ok a := by
  unfold demand
  by_cases h : condition <;> simp [h, bind, Except.bind]

/-- A string is a member with a text. -/
theorem isString_iff {value : Option Json} :
    isString value = true ↔ ∃ t, value = some (.string t) := by
  constructor
  · intro h
    unfold isString at h
    split at h
    next t => exact ⟨t, rfl⟩
    next => cases h
  · intro h
    obtain ⟨t, rfl⟩ := h
    rfl

/-- A text field is there, is not blank and is short enough. -/
theorem text_eq_ok {field : String} {limit : Nat} {t : QString} :
    text o field limit = .ok t ↔ lookup o (qs field) = some (.string t)
      ∧ QString.trimmed t ≠ [] ∧ t.length ≤ limit := by
  unfold text
  rw [demand_bind_eq_ok, isString_iff]
  constructor
  · intro h
    obtain ⟨⟨⟨t', hlookup⟩, htext, hlength⟩, hreturn⟩ := h
    rw [hlookup] at htext hlength hreturn
    injection hreturn with hreturn
    subst hreturn
    exact ⟨hlookup, htext, hlength⟩
  · intro h
    obtain ⟨hlookup, htext, hlength⟩ := h
    rw [hlookup]
    exact ⟨⟨⟨t, rfl⟩, htext, hlength⟩, rfl⟩

/-- An id is a text that is a portable id. -/
theorem idOf_eq_ok {id : QString} :
    idOf o = .ok id ↔ text o "id" = .ok id ∧ validId id = true := by
  unfold idOf
  rw [bind_eq_ok]
  constructor
  · intro h
    obtain ⟨t, htext, h⟩ := h
    obtain ⟨hvalid, hreturn⟩ := demand_bind_eq_ok.1 h
    injection hreturn with hreturn
    exact ⟨hreturn ▸ htext, hreturn ▸ hvalid⟩
  · intro h
    exact ⟨id, h.1, demand_bind_eq_ok.2 ⟨h.2, rfl⟩⟩

/-- A format is a short name, and not the one that is refused by name. -/
theorem formatOf_eq_ok {format : QString} :
    formatOf o = .ok format ↔ text o "format" 32 = .ok format
      ∧ formatName format = true ∧ format ≠ qs "onnx" := by
  unfold formatOf
  rw [bind_eq_ok]
  constructor
  · intro h
    obtain ⟨t, htext, h⟩ := h
    obtain ⟨hname, h⟩ := demand_bind_eq_ok.1 h
    obtain ⟨honnx, hreturn⟩ := demand_bind_eq_ok.1 h
    injection hreturn with hreturn
    exact ⟨hreturn ▸ htext, hreturn ▸ hname, hreturn ▸ honnx⟩
  · intro h
    exact ⟨format, h.1,
      demand_bind_eq_ok.2 ⟨h.2.1, demand_bind_eq_ok.2 ⟨h.2.2, rfl⟩⟩⟩

-- ==================================================================== numbers

/-- What is read as an integer of 32 bits other than 0 is that number. -/
theorem eq_jsonInt_of_toInt {value : Option Json} (h : toInt value ≠ 0) :
    value = some (jsonInt (toInt value)) := by
  unfold toInt at h ⊢
  split at h
  next q =>
    split at h
    next hint =>
      rw [if_pos hint]
      unfold jsonInt
      congr
      exact (Rat.den_eq_one_iff q).1 hint.1 |>.symm
    next => exact absurd rfl h
  next => exact absurd rfl h

/-- A context length is a whole number between its bounds. -/
theorem contextLengthOf_eq_ok {n : Int} :
    contextLengthOf o = .ok n
      ↔ lookup o (qs "context_length") = some (jsonInt n)
        ∧ 2 ≤ n ∧ n ≤ 1024 * 1024 := by
  unfold contextLengthOf
  rw [demand_bind_eq_ok]
  constructor
  · intro h
    obtain ⟨⟨-, -, htwo, hmax⟩, hreturn⟩ := h
    injection hreturn with hreturn
    have hpositive : toInt (lookup o (qs "context_length")) ≠ 0 := by omega
    have hvalue := eq_jsonInt_of_toInt hpositive
    rw [hreturn] at hvalue htwo hmax
    exact ⟨hvalue, htwo, hmax⟩
  · intro h
    obtain ⟨hlookup, htwo, hmax⟩ := h
    have hint : toInt (some (jsonInt n)) = n := by
      unfold toInt jsonInt
      dsimp only
      rw [if_pos ⟨by simp, by simp; omega, by simp; omega⟩]
      simp
    have hdouble : toDouble (.finite 0) (some (jsonInt n)) = .finite n := by
      unfold toDouble jsonInt
      dsimp only
      rw [if_pos (by simp), Rat.num_intCast, roundInt_small (by omega)]
    rw [hlookup, hint, hdouble]
    exact ⟨⟨rfl, rfl, htwo, hmax⟩, rfl⟩

-- =============================================================== capabilities

/-- The names that are taken from an array are the array. -/
theorem takeCapabilities_ok {values : List Json} {taken names : List QString}
    (h : takeCapabilities values taken = .ok names) :
    ∃ rest, names = taken ++ rest ∧ values = rest.map .string := by
  induction values generalizing taken with
  | nil =>
      injection h with h
      exact ⟨[], by rw [List.append_nil, h], rfl⟩
  | cons value values ih =>
      obtain ⟨⟨hstring, -, -⟩, h⟩ := demand_bind_eq_ok.1 h
      obtain ⟨name, hname⟩ := isString_iff.1 hstring
      injection hname with hname
      subst hname
      obtain ⟨rest, hnames, hvalues⟩ := ih h
      refine ⟨name :: rest, ?_, ?_⟩
      · rw [hnames, List.append_assoc]
        rfl
      · rw [hvalues]
        rfl

/-- The capabilities are the texts of the field, in order: each is
taken as it stands. -/
theorem capabilitiesOf_member {names : List QString}
    (h : capabilitiesOf o = .ok names) :
    lookup o (qs "capabilities") = some (.array (names.map .string)) := by
  obtain ⟨⟨harray, -, -⟩, h⟩ := demand_bind_eq_ok.1 h
  obtain ⟨rest, hnames, hvalues⟩ := takeCapabilities_ok h
  rw [List.nil_append] at hnames
  unfold isArray at harray
  split at harray
  next items hitems =>
    rw [hitems] at hvalues ⊢
    rw [hnames, ← hvalues]
    rfl
  next => cases harray

/-- A part of the parser that looks at one member. -/
theorem capabilitiesOf_congr {o' : JsonObject}
    (h : lookup o' (qs "capabilities") = lookup o (qs "capabilities")) :
    capabilitiesOf o' = capabilitiesOf o := by
  unfold capabilitiesOf
  rw [h]

-- ====================================================================== paths

/-- A text that is not blank is not empty. -/
theorem text_ne_nil {field : String} {limit : Nat} {t : QString}
    (h : text o field limit = .ok t) : t ≠ [] := by
  intro hnil
  subst hnil
  exact (text_eq_ok.1 h).2.1 rfl

/-- An entry point, whether it was given or not, is text. -/
theorem namedEntry_ok {format entry : QString}
    (h : namedEntry o format = .ok entry) :
    QString.trimmed entry ≠ [] ∧ entry.length ≤ 1024 := by
  unfold namedEntry at h
  split at h
  next => exact (text_eq_ok.1 h).2
  next =>
    split at h
    next =>
      injection h with h
      subst h
      decide
    next =>
      split at h
      next =>
        injection h with h
        subst h
        decide
      next => cases h

/-- No ONNX file is taken, however its name is written. -/
theorem notOnnx_eq_ok {name : QString} {u : Unit} :
    notOnnx l name = .ok u ↔ l.endsWith name (qs ".onnx") = false := by
  unfold notOnnx
  exact demand_eq_ok

/-- An entry point is a portable path, or the package itself where the format
is a directory. -/
theorem entryPointOf_eq_ok {format entry : QString} :
    entryPointOf l o format = .ok entry ↔ namedEntry o format = .ok entry
      ∧ ((entry = qs "." ∧ format = qs "mlx") ∨ relativeFile entry = true)
      ∧ l.endsWith entry (qs ".onnx") = false := by
  unfold entryPointOf
  rw [bind_eq_ok]
  constructor
  · intro h
    obtain ⟨e, hnamed, h⟩ := h
    obtain ⟨hinside, h⟩ := demand_bind_eq_ok.1 h
    obtain ⟨_, honnx, hreturn⟩ := bind_eq_ok.1 h
    injection hreturn with hreturn
    exact ⟨hreturn ▸ hnamed, hreturn ▸ hinside,
      hreturn ▸ notOnnx_eq_ok.1 honnx⟩
  · intro h
    exact ⟨entry, h.1, demand_bind_eq_ok.2 ⟨h.2.1,
      bind_eq_ok.2 ⟨(), notOnnx_eq_ok.2 h.2.2, rfl⟩⟩⟩

/-- A projector is for GGUF only, and is another file than the entry point. -/
theorem projectorOf_given {format entry projector : QString}
    (hgiven : contains o (qs "projector") = true) :
    projectorOf l o format entry = .ok projector
      ↔ text o "projector" 1024 = .ok projector
        ∧ l.endsWith projector (qs ".onnx") = false
        ∧ format = qs "gguf" ∧ relativeFile projector = true
        ∧ projector ≠ entry := by
  unfold projectorOf
  rw [if_pos hgiven, bind_eq_ok]
  constructor
  · intro h
    obtain ⟨p, htext, h⟩ := h
    obtain ⟨_, honnx, h⟩ := bind_eq_ok.1 h
    obtain ⟨hapart, hreturn⟩ := demand_bind_eq_ok.1 h
    injection hreturn with hreturn
    subst hreturn
    exact ⟨htext, notOnnx_eq_ok.1 honnx, hapart⟩
  · intro h
    exact ⟨projector, h.1, bind_eq_ok.2 ⟨(), notOnnx_eq_ok.2 h.2.1,
      demand_bind_eq_ok.2 ⟨h.2.2, rfl⟩⟩⟩

-- ================================================================== inventory

/-- Digits and the first letters: no space, and lower case. -/
theorem hexUnit_lower {u : QChar} (h : ((qc '0' ≤ u && u ≤ qc '9')
    || (qc 'a' ≤ u && u ≤ qc 'f')) = true) :
    isLowerAscii u = true ∧ isSpace u = false := by
  revert h
  unfold isLowerAscii isSpace qc
  simp only [Bool.or_eq_true, Bool.and_eq_true, decide_eq_true_eq,
    Bool.not_eq_true', Bool.and_eq_false_iff, Bool.or_eq_false_iff,
    decide_eq_false_iff_not, beq_eq_false_iff_ne, ne_eq,
    UInt16.le_iff_toNat_le, UInt16.lt_iff_toNat_lt, ← UInt16.toNat_inj]
  intro h
  rcases h with h | h
  · obtain ⟨hfrom, hto⟩ := h
    simp at hfrom hto ⊢
    omega
  · obtain ⟨hfrom, hto⟩ := h
    simp at hfrom hto ⊢
    omega

/-- Text without a space is trimmed. -/
theorem trimmed_self {s : QString} (h : ∀ u ∈ s, isSpace u = false) :
    QString.trimmed s = s := by
  have hdrop : ∀ t : QString, (∀ u ∈ t, isSpace u = false) →
      t.dropWhile isSpace = t := by
    intro t ht
    cases t with
    | nil => rfl
    | cons u t => rw [List.dropWhile_cons_of_neg (by simp [ht u])]
  unfold QString.trimmed
  rw [hdrop s h, hdrop s.reverse fun u hu => h u (List.mem_reverse.1 hu),
    List.reverse_reverse]

/-- A digest of a bounded text is 64 units of lower case. -/
theorem sha256Hex_units {s : QString} (h : sha256Hex s = true)
    (hlength : s.length ≤ 64) : s.length = 64
      ∧ ∀ u ∈ s, isLowerAscii u = true ∧ isSpace u = false := by
  unfold sha256Hex at h
  rw [Bool.and_eq_true, beq_iff_eq, List.all_eq_true] at h
  obtain ⟨hbody, hunits⟩ := h
  have hwhole : dollarBody s = s := by
    unfold dollarBody at hbody ⊢
    split
    next hnewline =>
      rw [if_pos hnewline, List.length_dropLast] at hbody
      omega
    next => rfl
  rw [hwhole] at hbody hunits
  exact ⟨hbody, fun u hu => hexUnit_lower (hunits u hu)⟩

/-- Its letters are ASCII, whatever follows the digits. -/
theorem sha256Hex_ascii {s : QString} (h : sha256Hex s = true) :
    s.all isLowerAscii = true := by
  unfold sha256Hex at h
  rw [Bool.and_eq_true, List.all_eq_true] at h
  have hunits := h.2
  unfold dollarBody at hunits
  rw [List.all_eq_true]
  intro u hu
  split at hunits
  next hnewline =>
    have hne : s ≠ [] := List.ne_nil_of_mem hu
    rw [← List.dropLast_concat_getLast hne, List.mem_append,
      List.mem_singleton] at hu
    rcases hu with hu | hu
    · exact (hexUnit_lower (hunits u hu)).1
    · rw [List.getLast?_eq_some_getLast hne] at hnewline
      injection hnewline with hnewline
      rw [hu, hnewline]
      decide
  next => exact (hexUnit_lower (hunits u hu)).1

/-- A size that was accepted is a number that is written as it is read. -/
theorem size_eq_jsonInt {size : Option Json} (hnumber : isDouble size = true)
    (hmin : Double.le (.finite 0) (toDouble (.finite 0) size) = true)
    (hmax : Double.le (toDouble (.finite 0) size) (.finite 9007199254740991)
      = true)
    (hwhole : Double.isWhole (toDouble (.finite 0) size) = true) :
    size = some (jsonInt (toInteger size)) := by
  unfold isDouble at hnumber
  split at hnumber
  next d =>
    cases d with
    | infinite negative =>
        cases negative <;> simp [toDouble, Double.le] at hmin hmax
    | nan => simp [toDouble, Double.le] at hmin
    | finite q =>
        unfold toDouble at hmin hmax hwhole
        dsimp only [Double.le, Double.isWhole] at hmin hmax hwhole
        have hden : q.den = 1 := by
          by_contra hne
          rw [if_neg hne] at hwhole
          exact hne (beq_iff_eq.1 hwhole)
        rw [if_pos hden, decide_eq_true_eq] at hmin hmax
        norm_cast at hmin hmax
        have hsmall : q.num.natAbs < 2 ^ 53 := by
          by_contra hbig
          have hround := le_roundNat (Nat.le_of_not_lt hbig)
          unfold roundInt at hmin hmax
          rcases lt_trichotomy q.num 0 with hneg | hzero | hpos
          · rw [Int.sign_eq_neg_one_of_neg hneg] at hmin
            omega
          · omega
          · rw [Int.sign_eq_one_of_pos hpos] at hmax
            omega
        have hint : toInteger (some (.number (.finite q))) = q.num := by
          unfold toInteger
          dsimp only
          rw [if_pos ⟨hden, by omega, by omega⟩]
        rw [hint]
        unfold jsonInt
        congr
        exact ((Rat.den_eq_one_iff q).1 hden).symm
  next => cases hnumber

/-- What a record of the inventory says, where it is accepted. -/
structure FileFacts (l : Letters) (seen : List QString) (file : ModelFile) :
    Prop where
  path : QString.trimmed file.path ≠ [] ∧ file.path.length ≤ 1024
  onnx : l.endsWith file.path (qs ".onnx") = false
  place : relativeFile file.path = true ∧ file.path ≠ qs "manifest.json"
    ∧ l.toCaseFolded file.path ∉ seen
  size : Double.le (.finite 0)
    (toDouble (.finite 0) (some (jsonInt file.size)))
      = true
    ∧ Double.le (toDouble (.finite 0) (some (jsonInt file.size)))
      (.finite 9007199254740991) = true
    ∧ Double.isWhole (toDouble (.finite 0) (some (jsonInt file.size))) = true
  integer : toInteger (some (jsonInt file.size)) = file.size
  digest : sha256Hex file.sha256 = true
  short : file.sha256.length ≤ 64

/-- What is known of a file that was taken, beside those taken before it. -/
theorem takeFile_facts {value : Json} {seen : List QString} {file : ModelFile}
    (h : takeFile l value seen = .ok file) : FileFacts l seen file := by
  obtain ⟨-, h⟩ := demand_bind_eq_ok.1 h
  obtain ⟨-, h⟩ := demand_bind_eq_ok.1 h
  obtain ⟨path, hpath, h⟩ := bind_eq_ok.1 h
  obtain ⟨_, honnx, h⟩ := bind_eq_ok.1 h
  obtain ⟨hplace, h⟩ := demand_bind_eq_ok.1 h
  obtain ⟨⟨hnumber, hmin, hmax, hwhole⟩, h⟩ := demand_bind_eq_ok.1 h
  obtain ⟨digest, hdigest, h⟩ := bind_eq_ok.1 h
  obtain ⟨hhex, h⟩ := demand_bind_eq_ok.1 h
  injection h with h
  subst h
  have hsize := size_eq_jsonInt hnumber hmin hmax hwhole
  have hlower := sha256Hex_ascii hhex
  refine ⟨(text_eq_ok.1 hpath).2, notOnnx_eq_ok.1 honnx, hplace, ?_, ?_, hhex,
    Nat.le_trans (l.toLower_length digest hlower) (text_eq_ok.1 hdigest).2.2⟩
  · rw [← hsize]
    exact ⟨hmin, hmax, hwhole⟩
  · rw [← hsize]

/-- A record that was read is read again from what is written for it. -/
theorem takeFile_fileObject {seen : List QString} {file : ModelFile}
    (h : FileFacts l seen file) :
    takeFile l (.object (fileObject file)) seen = .ok file := by
  have hpath : lookup (fileObject file) (qs "path")
      = some (.string file.path) :=
    lookup_ofMembers _ _
  have hsize : lookup (fileObject file) (qs "size")
      = some (jsonInt file.size) :=
    lookup_ofMembers _ _
  have hdigest : lookup (fileObject file) (qs "sha256")
      = some (.string file.sha256) := lookup_ofMembers _ _
  have hunits := sha256Hex_units h.digest h.short
  have htrimmed : QString.trimmed file.sha256 ≠ [] := by
    rw [trimmed_self fun u hu => (hunits.2 u hu).2, ← List.length_pos_iff]
    omega
  have hlower : l.toLower file.sha256 = file.sha256 :=
    l.toLower_ascii _ (sha256Hex_ascii h.digest)
  unfold takeFile
  refine demand_bind_eq_ok.2 ⟨rfl, demand_bind_eq_ok.2 ⟨rfl, bind_eq_ok.2
    ⟨file.path, text_eq_ok.2 ⟨hpath, h.path⟩, bind_eq_ok.2
      ⟨(), notOnnx_eq_ok.2 h.onnx, demand_bind_eq_ok.2 ⟨h.place, ?_⟩⟩⟩⟩⟩
  dsimp only [toObject]
  rw [hsize]
  refine demand_bind_eq_ok.2 ⟨⟨rfl, h.size⟩, bind_eq_ok.2 ⟨file.sha256,
    text_eq_ok.2 ⟨hdigest, htrimmed, h.short⟩, demand_bind_eq_ok.2 ⟨?_, ?_⟩⟩⟩
  · rw [hlower]
    exact h.digest
  · rw [hlower, h.integer]
    rfl

/-- Files that were taken are taken again from the objects they are written as:
each was checked against the ones before it, which are the same. -/
theorem takeFiles_fileObject {values : List Json} {seen : List QString}
    {files : List ModelFile} (h : takeFiles l values seen = .ok files) :
    takeFiles l (files.map fun file => .object (fileObject file)) seen
      = .ok files ∧ files.length = values.length := by
  induction values generalizing seen files with
  | nil =>
      injection h with h
      subst h
      exact ⟨rfl, rfl⟩
  | cons value values ih =>
      obtain ⟨file, hfile, h⟩ := bind_eq_ok.1 h
      obtain ⟨rest, hrest, h⟩ := bind_eq_ok.1 h
      injection h with h
      subst h
      obtain ⟨hagain, hlength⟩ := ih hrest
      refine ⟨bind_eq_ok.2 ⟨file, takeFile_fileObject (takeFile_facts hfile),
        bind_eq_ok.2 ⟨rest, hagain, rfl⟩⟩, ?_⟩
      rw [List.length_cons, List.length_cons, hlength]

-- ================================================================= round trip

variable {m : ModelManifest}

/-- The projector and the inventory are put in last. -/
theorem lookup_manifestObject {key : QString}
    (hprojector : key ≠ qs "projector")
    (hfiles : key ≠ qs "files") : lookup (manifestObject m) key
      = lookup [(qs "entry_point", .string m.entryPoint),
        (qs "capabilities", .array (m.capabilities.map .string)),
        (qs "context_length", jsonInt m.contextLength),
        (qs "quantization", .string m.quantization),
        (qs "format", .string m.format),
        (qs "architecture", .string m.architecture), (qs "id", .string m.id),
        (qs "schema_version", jsonInt 1)] key := by
  unfold manifestObject
  dsimp only
  rw [if_pos rfl, lookup_insert_ne _ _ hfiles]
  split
  · rw [lookup_ofMembers]
    rfl
  · rw [lookup_insert_ne _ _ hprojector, lookup_ofMembers]
    rfl

/-- The files are written under their name. -/
theorem lookup_files : lookup (manifestObject m) (qs "files")
    = some (.array (m.files.map fun file => .object (fileObject file))) :=
  lookup_insert_self _ _ _

/-- The projector is written when there is one. -/
theorem lookup_projector : lookup (manifestObject m) (qs "projector")
    = if m.projector = [] then none else some (.string m.projector) := by
  unfold manifestObject
  dsimp only
  rw [if_pos rfl, lookup_insert_ne _ _ (by decide)]
  split
  · rw [lookup_ofMembers]
    rfl
  · rw [lookup_insert_self]

/-- Every field of a written manifest has a name that is known. -/
theorem knownFields_manifestObject (m : ModelManifest) :
    knownFields (manifestObject m) = .ok () := by
  have hplain : ∀ member ∈ ofMembers [(qs "schema_version", jsonInt 1),
      (qs "id", .string m.id), (qs "architecture", .string m.architecture),
      (qs "format", .string m.format),
      (qs "quantization", .string m.quantization),
      (qs "context_length", jsonInt m.contextLength),
      (qs "capabilities", .array (m.capabilities.map .string)),
      (qs "entry_point", .string m.entryPoint)], member.1 ∈ fieldNames := by
    intro member hmember
    have hname := List.mem_map_of_mem (f := Prod.fst) (mem_ofMembers hmember)
    dsimp only [List.map] at hname
    revert hname
    generalize member.1 = name
    revert name
    decide
  have hall : ∀ member ∈ manifestObject m, member.1 ∈ fieldNames := by
    intro member hmember
    unfold manifestObject at hmember
    dsimp only at hmember
    rw [if_pos rfl] at hmember
    rcases mem_insert hmember with hmember | hmember
    · rw [congrArg Prod.fst hmember]
      show qs "files" ∈ fieldNames
      decide
    · split at hmember
      · exact hplain member hmember
      · rcases mem_insert hmember with hmember | hmember
        · rw [congrArg Prod.fst hmember]
          show qs "projector" ∈ fieldNames
          decide
        · exact hplain member hmember
  unfold knownFields
  rw [List.find?_eq_none.2
    fun member hmember => by simpa using hall member hmember]

/-- A text field that was read is read again. -/
theorem text_manifestObject {field : String} {limit : Nat} {t : QString}
    (h : text o field limit = .ok t)
    (hlookup : lookup (manifestObject m) (qs field) = some (.string t)) :
    text (manifestObject m) field limit = .ok t :=
  text_eq_ok.2 ⟨hlookup, (text_eq_ok.1 h).2⟩

/-- The projector is written where there is one. -/
theorem projectorOf_manifestObject {format entry : QString}
    (h : projectorOf l o format entry = .ok m.projector) :
    projectorOf l (manifestObject m) format entry = .ok m.projector := by
  by_cases hgiven : contains o (qs "projector") = true
  · obtain ⟨htext, hfacts⟩ := (projectorOf_given hgiven).1 h
    have hlookup : lookup (manifestObject m) (qs "projector")
        = some (.string m.projector) := by
      rw [lookup_projector, if_neg (text_ne_nil htext)]
    have hagain : contains (manifestObject m) (qs "projector") = true := by
      rw [contains_eq, hlookup]
      rfl
    exact (projectorOf_given hagain).2
      ⟨text_manifestObject htext hlookup, hfacts⟩
  · unfold projectorOf at h
    rw [if_neg hgiven] at h
    injection h with h
    have hnone : contains (manifestObject m) (qs "projector") = false := by
      rw [contains_eq, lookup_projector, if_pos h.symm]
      rfl
    unfold projectorOf
    rw [if_neg (by rw [hnone]; exact Bool.false_ne_true), ← h]

/-- The inventory is written record by record. -/
theorem filesOf_manifestObject (h : filesOf l o = .ok m.files) :
    filesOf l (manifestObject m) = .ok m.files := by
  obtain ⟨-, h⟩ := demand_bind_eq_ok.1 h
  obtain ⟨hcount, h⟩ := demand_bind_eq_ok.1 h
  obtain ⟨hagain, hlength⟩ := takeFiles_fileObject h
  unfold filesOf
  rw [lookup_files]
  refine demand_bind_eq_ok.2 ⟨Or.inr rfl, demand_bind_eq_ok.2 ⟨?_, hagain⟩⟩
  show (m.files.map _).length ≤ 10000
  rw [List.length_map, hlength]
  exact hcount

/-- And so is the entry point, whose default is written out. -/
theorem entryPointOf_manifestObject {format : QString}
    (h : entryPointOf l o format = .ok m.entryPoint) :
    entryPointOf l (manifestObject m) format = .ok m.entryPoint := by
  obtain ⟨hnamed, hfacts⟩ := entryPointOf_eq_ok.1 h
  have hlookup : lookup (manifestObject m) (qs "entry_point")
      = some (.string m.entryPoint) :=
    (lookup_manifestObject (by decide) (by decide)).trans rfl
  have hgiven : contains (manifestObject m) (qs "entry_point") = true := by
    rw [contains_eq, hlookup]
    rfl
  refine entryPointOf_eq_ok.2 ⟨?_, hfacts⟩
  unfold namedEntry
  rw [if_pos hgiven]
  exact text_eq_ok.2 ⟨hlookup, namedEntry_ok hnamed⟩

/-- A manifest is written with the version that is read. -/
theorem schemaVersion_manifestObject (m : ModelManifest) :
    schemaVersion (manifestObject m) = .ok () := by
  have hlookup : lookup (manifestObject m) (qs "schema_version")
      = some (jsonInt 1) :=
    (lookup_manifestObject (by decide) (by decide)).trans rfl
  unfold schemaVersion
  rw [hlookup]
  exact demand_eq_ok.2 (Or.inr ⟨rfl, by decide +kernel⟩)

/-- The capabilities are written in the order in which they were read. -/
theorem capabilitiesOf_manifestObject
    (h : capabilitiesOf o = .ok m.capabilities) :
    capabilitiesOf (manifestObject m) = .ok m.capabilities := by
  have hlookup : lookup (manifestObject m) (qs "capabilities")
      = some (.array (m.capabilities.map .string)) :=
    (lookup_manifestObject (by decide) (by decide)).trans rfl
  rw [capabilitiesOf_congr (hlookup.trans (capabilitiesOf_member h).symm)]
  exact h

/-- What is written of a manifest that was read. -/
theorem written_parses {m : ModelManifest}
    (h : parseModelManifest l o = .ok m) :
    parseModelManifest l (manifestObject m) = .ok m := by
  obtain ⟨_, -, h⟩ := bind_eq_ok.1 h
  obtain ⟨_, -, h⟩ := bind_eq_ok.1 h
  obtain ⟨id, hid, h⟩ := bind_eq_ok.1 h
  obtain ⟨architecture, harchitecture, h⟩ := bind_eq_ok.1 h
  obtain ⟨format, hformat, h⟩ := bind_eq_ok.1 h
  obtain ⟨quantization, hquantization, h⟩ := bind_eq_ok.1 h
  obtain ⟨contextLength, hcontext, h⟩ := bind_eq_ok.1 h
  obtain ⟨capabilities, hcapabilities, h⟩ := bind_eq_ok.1 h
  obtain ⟨entryPoint, hentry, h⟩ := bind_eq_ok.1 h
  obtain ⟨projector, hprojector, h⟩ := bind_eq_ok.1 h
  obtain ⟨files, hfiles, h⟩ := bind_eq_ok.1 h
  injection h with h
  subst h
  obtain ⟨hidText, hidValid⟩ := idOf_eq_ok.1 hid
  obtain ⟨hformatText, hformatFacts⟩ := formatOf_eq_ok.1 hformat
  unfold parseModelManifest
  refine bind_eq_ok.2 ⟨(), knownFields_manifestObject _, bind_eq_ok.2
    ⟨(), schemaVersion_manifestObject _,
      bind_eq_ok.2 ⟨id, idOf_eq_ok.2 ⟨text_manifestObject hidText
      ((lookup_manifestObject (by decide) (by decide)).trans rfl), hidValid⟩,
    bind_eq_ok.2 ⟨architecture, text_manifestObject harchitecture
      ((lookup_manifestObject (by decide) (by decide)).trans rfl),
    bind_eq_ok.2 ⟨format, formatOf_eq_ok.2 ⟨text_manifestObject hformatText
      ((lookup_manifestObject (by decide) (by decide)).trans rfl),
      hformatFacts⟩,
    bind_eq_ok.2 ⟨quantization, text_manifestObject hquantization
      ((lookup_manifestObject (by decide) (by decide)).trans rfl),
    bind_eq_ok.2 ⟨contextLength, contextLengthOf_eq_ok.2
      ⟨(lookup_manifestObject (by decide) (by decide)).trans rfl,
        (contextLengthOf_eq_ok.1 hcontext).2⟩, ?_⟩⟩⟩⟩⟩⟩⟩
  exact bind_eq_ok.2 ⟨capabilities,
    capabilitiesOf_manifestObject hcapabilities,
    bind_eq_ok.2 ⟨entryPoint, entryPointOf_manifestObject hentry,
    bind_eq_ok.2 ⟨projector, projectorOf_manifestObject hprojector,
    bind_eq_ok.2 ⟨files, filesOf_manifestObject hfiles, rfl⟩⟩⟩⟩

/-- A manifest that was read from an object is read again from the object that
is written for it, all of its fields as they were. So what an installation
publishes is what it has checked. -/
theorem parse_manifestObject (l : Letters) (o : JsonObject) (m : ModelManifest)
    (h : parseModelManifest l o = .ok m) :
    parseModelManifest l (manifestObject m) = .ok m :=
  written_parses h

/-- Letter case for ASCII only. -/
def asciiLower (u : QChar) : QChar :=
  if qc 'A' ≤ u ∧ u ≤ qc 'Z' then u + 32 else u

def asciiLetters : Letters where
  toLower := fun s => s.map asciiLower
  toCaseFolded := fun s => s.map asciiLower
  same := fun s t => s.map asciiLower == t.map asciiLower
  toLower_ascii := by
    intro s hs
    refine (List.map_congr_left fun u hu => ?_).trans (List.map_id' s)
    have hunit := List.all_eq_true.1 hs u hu
    unfold isLowerAscii at hunit
    simp only [Bool.and_eq_true, Bool.not_eq_true', Bool.and_eq_false_iff,
      decide_eq_true_eq, decide_eq_false_iff_not] at hunit
    unfold asciiLower
    rw [if_neg (not_and_or.2 hunit.2)]
  toLower_length := by
    intro s _
    rw [List.length_map]

/-- A manifest without an entry point, and with a digest in capitals. -/
def sampleManifest : JsonObject :=
  ofMembers [(qs "id", .string (qs "tiny")),
    (qs "architecture", .string (qs "llama")),
    (qs "format", .string (qs "gguf")), (qs "quantization", .string (qs "q4")),
    (qs "context_length", jsonInt 2048),
    (qs "capabilities", .array [.string (qs "chat")]),
    (qs "files",
      .array [.object (ofMembers [(qs "path", .string (qs "model.gguf")),
      (qs "size", jsonInt 7),
      (qs "sha256", .string (List.replicate 64 (qc 'A')))])])]

/-- The sample manifest, written and read again. -/
theorem parse_manifestObject_sample :
    parseModelManifest asciiLetters sampleManifest = .ok
        ⟨qs "tiny", qs "llama", qs "gguf", qs "q4", 2048, [qs "chat"],
          qs "model.gguf", [⟨qs "model.gguf", 7, List.replicate 64 (qc 'a')⟩],
            []⟩
      ∧ parseModelManifest asciiLetters (manifestObject
          ⟨qs "tiny", qs "llama", qs "gguf", qs "q4", 2048, [qs "chat"],
            qs "model.gguf", [⟨qs "model.gguf", 7, List.replicate 64
              (qc 'a')⟩], []⟩)
        = .ok ⟨qs "tiny", qs "llama", qs "gguf", qs "q4", 2048, [qs "chat"],
          qs "model.gguf", [⟨qs "model.gguf", 7, List.replicate 64 (qc 'a')⟩],
            []⟩ := by
  have h : parseModelManifest asciiLetters sampleManifest = .ok
      ⟨qs "tiny", qs "llama", qs "gguf", qs "q4", 2048, [qs "chat"],
        qs "model.gguf", [⟨qs "model.gguf", 7, List.replicate 64 (qc 'a')⟩],
          []⟩ := by
    decide +kernel
  exact ⟨h, parse_manifestObject _ _ _ h⟩

-- ============================================================= what is thrown

/-- Whatever is thrown is an `Error`. -/
def Errs {α : Type} (x : Except Exn α) :
    Prop := ∀ e, x = .error e → ∃ error, e = .error error

/-- What does not fail fails with no other exception. -/
theorem Errs.ok {α : Type} (a : α) : Errs (.ok a) := fun _ h => nomatch h

/-- And an `Error` is an `Error`. -/
theorem Errs.error {α : Type} (error : Error) :
    Errs (.error (.error error) : Except Exn α) := by
  intro e h
  injection h with h
  exact ⟨error, h.symm⟩

/-- A sequence throws what one of its steps throws. -/
theorem Errs.bind {α β : Type} {x : Except Exn α}
    {f : α → Except Exn β} (hx : Errs x)
    (hf : ∀ a, Errs (f a)) : Errs (x >>= f) := by
  intro e h
  cases x with
  | error e' =>
      injection h with h
      exact hx e (h ▸ rfl)
  | ok a => exact hf a e h

/-- A check throws an `Error` with its message. -/
theorem Errs.demand (condition : Prop) [Decidable condition]
    (message : QString) : Errs (demand condition message) := by
  unfold ManifestObject.demand
  split
  · exact .ok _
  · exact .error _

/-- And so does one with a code of its own. -/
theorem Errs.require (condition : Prop) [Decidable condition]
    (code : ErrorCode)
    (message : String) : Errs (require condition code message) := by
  unfold LocalLLM.require
  split
  · exact .ok _
  · exact .error _

/-- So reading a text throws `Error`s only. -/
theorem text_errs (o : JsonObject) (field : String) (limit : Nat) :
    Errs (text o field limit) :=
  .bind (.demand _ _) fun _ => .ok _

theorem notOnnx_errs (l : Letters) (name : QString) :
    Errs (notOnnx l name) := .demand _ _

/-- The loop over the capabilities throws `Error`s only. -/
theorem takeCapabilities_errs :
    ∀ (values : List Json) (taken : List QString),
      Errs (takeCapabilities values taken) := by
  intro values
  induction values with
  | nil => exact fun taken => .ok _
  | cons value rest ih => exact fun taken => .bind (.demand _ _) fun _ => ih _

/-- And so does reading the name of the entry point. -/
theorem namedEntry_errs (o : JsonObject) (format : QString) :
    Errs (namedEntry o format) := by
  unfold namedEntry
  split
  · exact text_errs o _ _
  · split
    · exact .ok _
    · split
      · exact .ok _
      · exact .error _

/-- So does the projector, whether it is given or not. -/
theorem projectorOf_errs (l : Letters) (o : JsonObject)
    (format entry : QString) : Errs (projectorOf l o format entry) := by
  unfold projectorOf
  split
  · exact .bind (text_errs o _ _) fun _ => .bind (notOnnx_errs l _) fun _ =>
      .bind (.demand _ _) fun _ => .ok _
  · exact .ok _

/-- So does the loop over the files, whatever it has seen before. -/
theorem takeFiles_errs (l : Letters) :
    ∀ (values : List Json) (seen : List QString),
      Errs (takeFiles l values seen) := by
  intro values
  induction values with
  | nil => exact fun seen => .ok _
  | cons value rest ih =>
      intro seen
      have htake : Errs (takeFile l value seen) :=
        .bind (.demand _ _) fun _ => .bind (.demand _ _) fun _ =>
          .bind (text_errs _ _ _) fun _ => .bind (notOnnx_errs l _) fun _ =>
          .bind (.demand _ _) fun _ => .bind (.demand _ _) fun _ =>
          .bind (text_errs _ _ _) fun _ => .bind (.demand _ _) fun _ => .ok _
      exact .bind htake fun file => .bind (ih _) fun _ => .ok _

/-- A manifest is refused with an `Error`. -/
theorem parse_errs (l : Letters) (o : JsonObject) :
    Errs (parseModelManifest l o) := by
  have hknown : Errs (knownFields o) := by
    unfold knownFields
    split
    · exact .error _
    · exact .ok _
  have hid : Errs (idOf o) := .bind (text_errs o _ _) fun _ =>
    .bind (.demand _ _) fun _ => .ok _
  have hformat : Errs (formatOf o) := .bind (text_errs o _ _) fun _ =>
    .bind (.demand _ _) fun _ => .bind (.demand _ _) fun _ => .ok _
  have hcontext : Errs (contextLengthOf o) :=
    .bind (.demand _ _) fun _ => .ok _
  have hcapabilities : Errs (capabilitiesOf o) := .bind (.demand _ _) fun _ =>
    takeCapabilities_errs _ _
  have hentry : ∀ format, Errs (entryPointOf l o format) := fun format =>
    .bind (namedEntry_errs o format) fun _ => .bind (.demand _ _) fun _ =>
      .bind (notOnnx_errs l _) fun _ => .ok _
  have hfiles : Errs (filesOf l o) := .bind (.demand _ _) fun _ =>
    .bind (.demand _ _) fun _ => takeFiles_errs l _ _
  exact .bind hknown fun _ => .bind (.demand _ _) fun _ => .bind hid fun _ =>
    .bind (text_errs o _ _) fun _ => .bind hformat fun format =>
    .bind (text_errs o _ _) fun _ => .bind hcontext fun _ =>
    .bind hcapabilities fun _ =>
    .bind (hentry format) fun entry =>
    .bind (projectorOf_errs l o format entry) fun _ =>
    .bind hfiles fun _ => .ok _

end LocalLLM.ManifestObject
