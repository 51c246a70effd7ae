/-
Native content, normalised twice.

# The normal kinds

What comes out of a block is a text, an image, an audio or a video with
frames that are images, and each of these is normalised to itself
(`nativeBlock_again`): the members that are read are the members that were
written.

# The limit

The limit is on the text of the input. A link is written into a text, with
its quotation marks escaped, and a frame gets its type, so the normal form
can be longer than what it came from and then lies beyond the limit
(`native_content_grows`). Nothing else can go wrong the second time
(`native_content_again`).
-/
import LocalLLM.Core.JsonText
import LocalLLM.Proofs.Preparation

namespace LocalLLM

open Json

variable {q : MediaCodec}

-- ====================================================================== media

/-- Media bytes depend on one member. -/
theorem mediaBytes_congr {block block' : JsonObject}
    (h : lookup block (qs "data") = lookup block' (qs "data")) :
    mediaBytes q block = mediaBytes q block' := by
  unfold mediaBytes blockText
  rw [h]

/-- An image or audio block depends on three. -/
theorem media_congr {block block' : JsonObject}
    (htype : blockText block "type" = blockText block' "type")
    (hmime : blockText block "mimeType" = blockText block' "mimeType")
    (hdata : lookup block (qs "data") = lookup block' (qs "data")) :
    media q block = media q block' := by
  have htext : blockText block "data" = blockText block' "data" := by
    unfold blockText
    rw [hdata]
  unfold media
  rw [htype, hmime, htext, mediaBytes_congr hdata]

/-- What a normalised image or audio block says. -/
structure IsMedia (block out : JsonObject) : Prop where
  kind : blockText block "type" = qs "image"
    ∨ blockText block "type" = qs "audio"
  type : lookup out (qs "type") = some (.string (blockText block "type"))
  mime : lookup out (qs "mimeType")
    = some (.string (blockText block "mimeType"))
  data : lookup out (qs "data") = lookup block (qs "data")

theorem media_spec {block out : JsonObject} (h : media q block = .ok out) :
    IsMedia block out := by
  unfold media at h
  simp only [bind_eq_ok, require_eq_ok, exists_const] at h
  obtain ⟨hkind, bytes, hbytes, hout⟩ := h
  injection hout with hout
  subst hout
  unfold mediaBytes at hbytes
  simp only [bind_eq_ok, require_eq_ok, exists_const] at hbytes
  obtain ⟨⟨hstring, -⟩, -⟩ := hbytes
  have hdata : lookup block (qs "data")
      = some (.string (blockText block "data")) := by
    unfold blockText
    cases hfind : lookup block (qs "data") with
    | none =>
        rw [hfind] at hstring
        cases hstring
    | some v =>
        rw [hfind] at hstring
        cases v with
        | string s => rfl
        | _ => cases hstring
  refine ⟨?_, ?_, ?_, ?_⟩
  · rcases hkind with ⟨hkind, -⟩ | ⟨hkind, -⟩
    · exact .inl hkind
    · exact .inr hkind
  · rw [lookup_ofMembers]
    rfl
  · rw [lookup_ofMembers]
    rfl
  · rw [lookup_ofMembers, hdata]
    rfl

/-- A block with the three members of a normalised one is normalised to it. -/
theorem media_again {block out block' : JsonObject}
    (h : media q block = .ok out)
    (htype : blockText block' "type" = blockText block "type")
    (hmime : lookup block' (qs "mimeType") = lookup out (qs "mimeType"))
    (hdata : lookup block' (qs "data") = lookup out (qs "data")) :
    media q block' = .ok out := by
  have hspec := media_spec h
  rw [← h]
  refine media_congr htype ?_ (hdata.trans hspec.data)
  unfold blockText
  rw [hmime, hspec.mime]
  rfl

theorem nativeBlock_media {block out : JsonObject}
    (h : media q block = .ok out) :
    nativeBlock q (.object out) = .ok (.object out, 1) := by
  have hspec := media_spec h
  have htype : blockText out "type" = blockText block "type" := by
    show toText (lookup out (qs "type")) = _
    rw [hspec.type]
    rfl
  have hagain : media q out = .ok out := media_again h htype rfl rfl
  have hkind : blockText out "type" = qs "image"
      ∨ blockText out "type" = qs "audio" := by
    rw [htype]
    exact hspec.kind
  have hother : ∀ key ∈ [qs "image_url", qs "input_audio", qs "text"],
      blockText out "type" ≠ key := by
    intro key hkey heq
    rw [heq] at hkind
    rcases hkind with hkind | hkind <;> subst hkind <;> revert hkey <;> decide
  unfold nativeBlock
  rw [show toObject (some (.object out)) = out from rfl,
    if_neg (hother _ (by simp)), if_neg (hother _ (by simp)),
    if_neg (hother _ (by simp)), if_pos hkind, hagain]
  rfl

theorem nativeBlock_text (text : QString) :
    nativeBlock q (textBlock text) = .ok (textBlock text, 0) := rfl

-- ====================================================================== video

/-- Normalised frames are normalised to themselves, at the same times. Each is
compared with the time of the one before it, which is the same again. -/
theorem videoFrames_again :
    ∀ (items out : List Json) (previous : Double),
    videoFrames q items previous = .ok out →
    videoFrames q out previous = .ok out := by
  intro items
  induction items with
  | nil =>
      intro out previous h
      injection h with h
      rw [← h]
      rfl
  | cons item rest ih =>
      intro out previous h
      unfold videoFrames at h
      simp only [bind_eq_ok, require_eq_ok, exists_const] at h
      obtain ⟨-, hstamp, normalized, hmedia, frames, hframes, hout⟩ := h
      injection hout with hout
      subst hout
      generalize lookup (toObject (some item)) (qs "timestamp_ms") = stamp at *
      obtain ⟨v, rfl⟩ : ∃ v, stamp = some v := by
        cases stamp with
        | none => cases hstamp.1
        | some v => exact ⟨v, rfl⟩
      have hspec := media_spec hmedia
      -- the frame as it is read again
      have hread : lookup (insert normalized (qs "timestamp_ms") v)
          (qs "timestamp_ms") = some v := lookup_insert_self _ _ _
      have hagain : media q (insert (insert normalized (qs "timestamp_ms") v)
          (qs "type") (.string (qs "image"))) = .ok normalized := by
        refine media_again hmedia ?_ ?_ ?_
        · unfold blockText
          rw [lookup_insert_self, lookup_insert_self]
        · rw [lookup_insert_ne _ _ (by decide),
            lookup_insert_ne _ _ (by decide)]
        · rw [lookup_insert_ne _ _ (by decide),
            lookup_insert_ne _ _ (by decide)]
      have hframe : toObject
        (some (.object (insert normalized (qs "timestamp_ms")
          ((some v).getD .null))))
            = insert normalized (qs "timestamp_ms") v := rfl
      unfold videoFrames
      simp only [bind_eq_ok, require_eq_ok, exists_const]
      rw [hframe, hread]
      exact ⟨rfl, hstamp, normalized, hagain, frames, ih _ _ hframes, rfl⟩

theorem videoFrames_length :
    ∀ (items out : List Json) (previous : Double),
    videoFrames q items previous = .ok out → out.length = items.length := by
  intro items
  induction items with
  | nil =>
      intro out previous h
      injection h with h
      rw [← h]
  | cons item rest ih =>
      intro out previous h
      unfold videoFrames at h
      simp only [bind_eq_ok, require_eq_ok, exists_const] at h
      obtain ⟨-, -, normalized, -, frames, hframes, hout⟩ := h
      injection hout with hout
      rw [← hout, List.length_cons, List.length_cons, ih _ _ hframes]

theorem nativeBlock_video {block : JsonObject} {out : Json} {count : Nat}
    (h : video q block = .ok (out, count)) :
    nativeBlock q out = .ok (out, count) := by
  unfold video at h
  simp only [bind_eq_ok, require_eq_ok, exists_const] at h
  obtain ⟨⟨-, hsome, hcount⟩, frames, hframes, hout⟩ := h
  injection hout with hout
  obtain ⟨rfl, rfl⟩ := Prod.mk.inj hout
  have hlength := videoFrames_length _ _ _ hframes
  have htype : blockText (ofMembers [(qs "type", .string (qs "video")),
      (qs "frames", .array frames)]) "type" = qs "video" := by
    unfold blockText
    rw [lookup_ofMembers]
    rfl
  have hread : lookup (ofMembers [(qs "type", .string (qs "video")),
      (qs "frames", .array frames)]) (qs "frames") = some (.array frames) := by
    rw [lookup_ofMembers]
    rfl
  have hne : frames ≠ [] := fun hnil => by
    rw [hnil, List.length_nil] at hlength
    exact hsome (List.length_eq_zero_iff.1 hlength.symm)
  have hvideo : video q (ofMembers [(qs "type", .string (qs "video")),
      (qs "frames", .array frames)]) = .ok (.object (ofMembers
        [(qs "type", .string (qs "video")), (qs "frames", .array frames)]),
        frames.length) := by
    unfold video
    simp only [bind_eq_ok, require_eq_ok, exists_const]
    rw [hread]
    refine ⟨⟨rfl, hne, ?_⟩, frames, videoFrames_again _ _ _ hframes, rfl⟩
    show frames.length ≤ 64
    omega
  unfold nativeBlock
  simp only [toObject, htype, hvideo]
  rfl

theorem nativeBlock_resource {block : JsonObject} {out : Json} {count : Nat}
    (h : resourceBlock q block = .ok (out, count)) :
    nativeBlock q out = .ok (out, count) := by
  unfold resourceBlock at h
  simp only [bind_eq_ok, require_eq_ok, exists_const] at h
  obtain ⟨-, h⟩ := h
  split at h
  · simp only [bind_eq_ok] at h
    obtain ⟨out, hmedia, hout⟩ := h
    injection hout with hout
    obtain ⟨rfl, rfl⟩ := Prod.mk.inj hout
    exact nativeBlock_media hmedia
  · simp only [bind_eq_ok, require_eq_ok, exists_const] at h
    obtain ⟨-, hout⟩ := h
    injection hout with hout
    obtain ⟨rfl, rfl⟩ := Prod.mk.inj hout
    exact nativeBlock_text _

-- ===================================================================== blocks

/-- A normalised block is normalised to itself. This is by its kind; only text
is measured, and its measure does not change. -/
theorem nativeBlock_again {value out : Json} {count : Nat}
    (h : nativeBlock q value = .ok (out, count)) :
    nativeBlock q out = .ok (out, count) := by
  unfold nativeBlock at h
  simp only [bind_eq_ok, require_eq_ok, exists_const] at h
  obtain ⟨-, h⟩ := h
  generalize toObject (some value) = block at h
  split at h
  · -- `image_url`
    simp only [bind_eq_ok] at h
    obtain ⟨image, himage, hout⟩ := h
    injection hout with hout
    obtain ⟨rfl, rfl⟩ := Prod.mk.inj hout
    unfold imageUrl at himage
    simp only [bind_eq_ok, require_eq_ok, exists_const] at himage
    obtain ⟨-, out, hmedia, heq⟩ := himage
    injection heq with heq
    subst heq
    exact nativeBlock_media hmedia
  · split at h
    · -- `input_audio`
      simp only [bind_eq_ok] at h
      obtain ⟨audio, haudio, hout⟩ := h
      injection hout with hout
      obtain ⟨rfl, rfl⟩ := Prod.mk.inj hout
      unfold inputAudio at haudio
      simp only [bind_eq_ok, require_eq_ok, exists_const] at haudio
      obtain ⟨-, out, hmedia, heq⟩ := haudio
      injection heq with heq
      subst heq
      exact nativeBlock_media hmedia
    · split at h
      · -- `text`
        simp only [bind_eq_ok, require_eq_ok, exists_const] at h
        obtain ⟨-, hout⟩ := h
        injection hout with hout
        obtain ⟨rfl, rfl⟩ := Prod.mk.inj hout
        exact nativeBlock_text _
      · split at h
        · -- `image` and `audio`
          simp only [bind_eq_ok] at h
          obtain ⟨out, hmedia, hout⟩ := h
          injection hout with hout
          obtain ⟨rfl, rfl⟩ := Prod.mk.inj hout
          exact nativeBlock_media hmedia
        · split at h
          · exact nativeBlock_video h
          · split at h
            · exact nativeBlock_resource h
            · split at h
              · -- `resource_link`
                simp only [bind_eq_ok, require_eq_ok, exists_const] at h
                obtain ⟨-, hout⟩ := h
                injection hout with hout
                obtain ⟨rfl, rfl⟩ := Prod.mk.inj hout
                exact nativeBlock_text _
              · cases h

/-- The loop over the blocks, over its own result. -/
theorem nativeBlocks_again :
    ∀ (content out : List Json) (count : Nat),
    nativeBlocks q content = .ok (out, count) →
    nativeBlocks q out = .ok (out, count) ∧ out.length = content.length := by
  intro content
  induction content with
  | nil =>
      intro out count h
      injection h with h
      obtain ⟨rfl, rfl⟩ := Prod.mk.inj h
      exact ⟨rfl, rfl⟩
  | cons value rest ih =>
      intro out count h
      unfold nativeBlocks at h
      simp only [bind_eq_ok] at h
      obtain ⟨⟨block, n⟩, hblock, ⟨blocks, m⟩, hblocks, hout⟩ := h
      injection hout with hout
      obtain ⟨rfl, rfl⟩ := Prod.mk.inj hout
      obtain ⟨hrest, hlength⟩ := ih _ _ hblocks
      constructor
      · unfold nativeBlocks
        rw [nativeBlock_again hblock, ok_bind, hrest]
        rfl
      · rw [List.length_cons, List.length_cons, hlength]

-- ==================================================================== content

/-- Within the limit, a normal form is normalised to itself. -/
theorem nativeContent_again {content result : List Json} {maxCharacters : Int}
    (h : nativeContent q content maxCharacters = .ok result)
    (hsize : ((q.arrayText result).length : Int) ≤ maxCharacters) :
    nativeContent q result maxCharacters = .ok result := by
  unfold nativeContent at h ⊢
  simp only [bind_eq_ok, require_eq_ok, exists_const] at h ⊢
  obtain ⟨⟨hcount, hlimit⟩, -, ⟨out, n⟩, hblocks, hmedia, hout⟩ := h
  injection hout with hout
  subst hout
  obtain ⟨hagain, hlength⟩ := nativeBlocks_again _ _ _ hblocks
  exact ⟨⟨hlength ▸ hcount, hlimit⟩, hsize, _, hagain, hmedia, rfl⟩

/-- What was normalised has at most as many blocks as are allowed. -/
theorem nativeContent_count {content result : List Json} {maxCharacters : Int}
    (h : nativeContent q content maxCharacters = .ok result) :
    result.length ≤ 64 ∧ 0 < maxCharacters := by
  unfold nativeContent at h
  simp only [bind_eq_ok, require_eq_ok, exists_const] at h
  obtain ⟨⟨hcount, hlimit⟩, -, ⟨out, n⟩, hblocks, -, hout⟩ := h
  injection hout with hout
  subst hout
  exact ⟨(nativeBlocks_again _ _ _ hblocks).2 ▸ hcount, hlimit⟩

/-- A normal form is normalised to itself just when its text is within
the limit; beyond it is refused. So under the default limit the
modalities and the evidence of content are those of its normal form just
when that is within the limit. -/
theorem native_content_again {content result : List Json} {maxCharacters : Int}
    (h : nativeContent q content maxCharacters = .ok result) :
    (nativeContent q result maxCharacters = .ok result
        ↔ ((q.arrayText result).length : Int) ≤ maxCharacters)
      ∧ (maxCharacters < (q.arrayText result).length →
        nativeContent q result maxCharacters
          = .error (err .InvalidArgument "Native content exceeds input limit"))
      ∧ (maxCharacters = nativeLimit →
        ((contentModalities q result = contentModalities q content)
            ↔ ((q.arrayText result).length : Int) ≤ nativeLimit)
        ∧ ((q.arrayText result).length ≤ nativeLimit → ∀ sha256Hex,
          mediaEvidence q sha256Hex result
            = mediaEvidence q sha256Hex content)) := by
  obtain ⟨hcount, hlimit⟩ := nativeContent_count h
  have hlong : maxCharacters < (q.arrayText result).length →
      nativeContent q result maxCharacters
        = .error (err .InvalidArgument "Native content exceeds input limit") :=
    nativeContent_too_long hcount hlimit
  refine ⟨⟨fun hagain => ?_, nativeContent_again h⟩, hlong, ?_⟩
  · by_contra hsize
    rw [hlong (not_le.1 hsize)] at hagain
    cases hagain
  · intro hdefault
    subst hdefault
    refine ⟨⟨fun hsame => ?_, fun hsize => ?_⟩, fun hsize sha256Hex => ?_⟩
    · by_contra hsize
      unfold contentModalities at hsame
      rw [hlong (not_le.1 hsize), h] at hsame
      cases hsame
    · unfold contentModalities
      rw [nativeContent_again h hsize, h]
    · unfold mediaEvidence
      rw [nativeContent_again h hsize, h]

-- ================================================================ a long link

/-- A text between quotation marks, without control characters. -/
def quoted (text : QString) : QString :=
  quote :: (text.flatMap fun u =>
    if u = quote ∨ u = backslash then [backslash, u] else [u]) ++ [quote]

/-- The compact text of an object whose members are texts. -/
def flatText (o : JsonObject) : QString :=
  qc '\x7b' :: QString.join (o.map fun m =>
    quoted m.1 ++ [qc ':'] ++ quoted (toText (some m.2))) [qc ',']
      ++ [qc '\x7d']

/-- The texts of blocks whose members are texts. -/
def flatCodec : MediaCodec where
  arrayText := fun items => qc '[' :: QString.join (items.map fun item =>
    flatText (toObject (some item))) [qc ','] ++ [qc ']']
  objectText := flatText
  fromBase64 := fun _ => none
  toBase64 := fun _ => []

/-- A link to a resource. -/
def linkTo (uri : QString) : JsonObject :=
  [(qs "type", .string (qs "resource_link")), (qs "uri", .string uri)]

/-- Quoting makes no text shorter. -/
theorem length_quoted (text : QString) :
    text.length + 2 ≤ (quoted text).length := by
  unfold quoted
  rw [List.length_append, List.length_cons, List.length_flatMap,
    List.length_singleton]
  have hunits : text.length ≤ (text.map fun u =>
      (if u = quote ∨ u = backslash then [backslash, u]
        else [u]).length).sum := by
    induction text with
    | nil => simp
    | cons u rest ih =>
        rw [List.map_cons, List.sum_cons, List.length_cons]
        by_cases hu : u = quote ∨ u = backslash
        · rw [if_pos hu, List.length_cons]
          omega
        · rw [if_neg hu, List.length_singleton]
          omega
  omega

theorem length_quoted_plain {n : Nat} :
    (quoted (List.replicate n (qc 'a'))).length = n + 2 := by
  unfold quoted
  rw [List.length_append, List.length_cons, List.length_flatMap,
    List.length_singleton,
    List.map_replicate, List.sum_replicate]
  have hunit : (if qc 'a' = quote ∨ qc 'a' = backslash then [backslash, qc 'a']
      else [qc 'a']).length = 1 := by decide
  rw [hunit]
  simp

theorem length_linkTo (n : Nat) :
    (flatText (linkTo (List.replicate n (qc 'a')))).length = n + 33 := by
  have htext : flatText (linkTo (List.replicate n (qc 'a')))
      = qc '\x7b' :: (quoted (qs "type") ++ [qc ':']
        ++ quoted (qs "resource_link")
        ++ [qc ','] ++ (quoted (qs "uri") ++ [qc ':']
        ++ quoted (List.replicate n (qc 'a')))) ++ [qc '\x7d'] := by
    unfold flatText linkTo QString.join toText
    simp
  have hkeys : (quoted (qs "type")).length = 6 ∧ (quoted (qs "uri")).length = 5
      ∧ (quoted (qs "resource_link")).length = 15 := by decide
  rw [htext]
  simp only [List.length_append, List.length_cons, List.length_nil, hkeys,
    length_quoted_plain]
  omega

theorem length_textBlock (text : QString) :
    text.length + 25 ≤ (flatText
      (toObject (some (textBlock text)))).length := by
  have htext : flatText (toObject (some (textBlock text)))
      = qc '\x7b' :: (quoted (qs "text") ++ [qc ':'] ++ quoted text
        ++ [qc ','] ++ (quoted (qs "type") ++ [qc ':'] ++ quoted (qs "text")))
        ++ [qc '\x7d'] := by
    have hmembers : toObject (some (textBlock text))
        = [(qs "text", .string text), (qs "type", .string (qs "text"))] := rfl
    rw [hmembers]
    unfold flatText QString.join toText
    simp
  have hkeys : (quoted (qs "type")).length = 6
      ∧ (quoted (qs "text")).length = 6 := by
    decide
  have hquoted := length_quoted text
  rw [htext]
  simp only [List.length_append, List.length_cons, List.length_nil, hkeys]
  omega

theorem length_single (item : Json) :
    (flatCodec.arrayText [item]).length
      = (flatText (toObject (some item))).length + 2 := by
  have htext : flatCodec.arrayText [item]
      = qc '[' :: flatText (toObject (some item)) ++ [qc ']'] := by
    unfold flatCodec QString.join
    simp
  rw [htext, List.length_append, List.length_cons, List.length_singleton]

theorem nativeBlocks_link (uri : QString) :
    nativeBlocks flatCodec [.object (linkTo uri)]
      = .ok ([textBlock (flatText (linkTo uri))], 0) := rfl

/-- A link whose text is as long as the limit is accepted; its
normal form is not. -/
theorem nativeContent_link {n : Nat} {limit : Int}
    (hn : (n : Int) + 35 = limit) :
    nativeContent flatCodec
        [.object (linkTo (List.replicate n (qc 'a')))] limit
        = .ok [textBlock (flatText (linkTo (List.replicate n (qc 'a'))))]
      ∧ nativeContent flatCodec
          [textBlock (flatText (linkTo (List.replicate n (qc 'a'))))] limit
        = .error (err .InvalidArgument
          "Native content exceeds input limit") := by
  have hlink := length_linkTo n
  generalize List.replicate n (qc 'a') = uri at *
  have hfits : ((flatCodec.arrayText [.object (linkTo uri)]).length : Int)
      ≤ limit := by
    rw [length_single]
    show (((flatText (linkTo uri)).length + 2 : Nat) : Int) ≤ limit
    omega
  have hgrown := length_textBlock (flatText (linkTo uri))
  constructor
  · unfold nativeContent
    simp only [bind_eq_ok, require_eq_ok, exists_const]
    refine ⟨⟨?_, by omega⟩, hfits, _, nativeBlocks_link uri,
      Nat.zero_le _, rfl⟩
    rw [List.length_singleton]
    omega
  · refine nativeContent_too_long ?_ (by omega) ?_
    · rw [List.length_singleton]
      omega
    · rw [length_single]
      omega

/-- A short link, within 100 characters also when it is a text. -/
theorem native_content_again_short :
    nativeContent flatCodec [textBlock (flatText (linkTo (qs "a")))] 100
      = .ok [textBlock (flatText (linkTo (qs "a")))] := by
  have hfirst : nativeContent flatCodec [.object (linkTo (qs "a"))] 100
      = .ok [textBlock (flatText (linkTo (qs "a")))] := by
    unfold nativeContent
    simp only [bind_eq_ok, require_eq_ok, exists_const]
    exact ⟨by decide, by decide, _, nativeBlocks_link _, Nat.zero_le _, rfl⟩
  exact (native_content_again hfirst).1.2 (by decide)

/-- A link whose text is as long as the default limit. -/
def longLink : JsonObject :=
  linkTo (List.replicate (1024 * 1024 - 35) (qc 'a'))

/-- It has modalities, and its normal form has not. -/
theorem native_content_grows :
    nativeContent flatCodec [.object longLink] nativeLimit
        = .ok [textBlock (flatText longLink)]
      ∧ nativeContent flatCodec [textBlock (flatText longLink)] nativeLimit
        = .error (err .InvalidArgument "Native content exceeds input limit")
      ∧ contentModalities flatCodec [.object longLink] = .ok modalityText
      ∧ contentModalities flatCodec [textBlock (flatText longLink)]
        = .error (err .InvalidArgument
          "Native content exceeds input limit") := by
  obtain ⟨hfirst, hsecond⟩ := nativeContent_link
    (show ((1024 * 1024 - 35 : Nat) : Int) + 35 = nativeLimit by decide)
  unfold longLink
  generalize List.replicate (1024 * 1024 - 35) (qc 'a') = uri at *
  refine ⟨hfirst, hsecond, ?_, ?_⟩
  · have hnone : blockModalities (textBlock (flatText (linkTo uri))) = 0 := rfl
    unfold contentModalities
    rw [hfirst, ok_bind, List.foldl_cons, List.foldl_nil, hnone]
    rfl
  · unfold contentModalities
    rw [hsecond]
    rfl

end LocalLLM
