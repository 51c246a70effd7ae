/-
What a download can do, in any order of events.

`Kept` is the invariant: what is written is a prefix of the bodies that are
no redirects, and as long as nothing has failed it is all of them, and all
of it has been hashed. Each handler keeps it (`drain_kept` is the one that
writes). So no more than the pinned size is ever written, nothing after a
failure, and a download that returns has the pinned size and digest
(`run_downloads`).

In the directory of models a download is a single step
(`ModelsDirectory.download`). A download that returns is such a step
(`Kept.refines`), and one whose bytes are the pinned ones returns, however
they are cut (`pieces_delivered`).
-/
import LocalLLM.Models.Download
import LocalLLM.Proofs.Publication

namespace LocalLLM

namespace Download

open ModelInspection (demandThat)
open ModelsDirectory (demandThat_eq_ok blocked covered PullChance
  receive Staged)

variable {j : DownloadJob} {s s' : Download}

-- ============================================================== the invariant

/-- The bodies that belong to the file. -/
def asset (bodies : List (Int × List UInt8)) : List UInt8 :=
  (bodies.filter fun body => !isRedirect body.1).flatMap Prod.snd

/-- The bodies that count are gathered in the order of the answers. -/
@[simp] theorem asset_append (bodies more : List (Int × List UInt8)) :
    asset (bodies ++ more) = asset bodies ++ asset more := by
  simp [asset]

/-- The body of a redirect answer is not part of the file. -/
theorem asset_redirect {status : Int} (h : isRedirect status = true)
    (data : List UInt8) : asset [(status, data)] = [] := by
  simp [asset, h]

theorem asset_body {status : Int} (h : isRedirect status = false)
    (data : List UInt8) : asset [(status, data)] = data := by
  simp [asset, h]

/-- What every event keeps. -/
structure Kept (j : DownloadJob) (s : Download) : Prop where
  requests : ∀ url ∈ s.requested, allowedUrl url = true
    ∧ (j.url.scheme = qs "https" → url.scheme = qs "https")
  few : s.requested.length ≤ 9
  written : s.output <+: asset s.bodies
  clean : s.failure = none → s.output = asset s.bodies ∧ s.output = s.hashed
  received : s.received = s.hashed.length
  short : (s.output.length : Int) ≤ max 0 j.file.size
  hashedShort : (s.hashed.length : Int) ≤ max 0 j.file.size
  reports : ∀ n ∈ s.reports, 0 ≤ n ∧ n ≤ s.received
  sorted : s.reports.Pairwise (· ≤ ·)

theorem kept_start (hurl : allowedUrl j.url = true) : Kept j (start j) where
  requests := by simp [start, hurl]
  few := by simp [start]
  written := by simp [start]
  clean := fun _ => ⟨rfl, rfl⟩
  received := rfl
  short := by simp [start]
  hashedShort := by simp [start]
  reports := by simp [start]
  sorted := by simp [start]

/-- A failure changes nothing else. -/
theorem Kept.fail (h : Kept j s) (e : Exn) : Kept j (s.fail e) where
  requests := h.requests
  few := h.few
  written := h.written
  clean := fun hnone => by simp [Download.fail] at hnone
  received := h.received
  short := h.short
  hashedShort := h.hashedShort
  reports := h.reports
  sorted := h.sorted

/-- `drain` writes what the reply has, or fails. It writes nothing of a
redirect, and stops before the first byte past the announced size. -/
theorem Kept.drain (h : Kept j s) (d : Drain) : Kept j (s.drain j d) := by
  unfold Download.drain
  by_cases hfailed : s.failure.isSome = true
  · rwa [if_pos hfailed]
  rw [if_neg hfailed]
  have hnone : s.failure = none := by simpa using hfailed
  obtain ⟨hasset, hhashed⟩ := h.clean hnone
  have hreceived := h.received
  have hshort := h.hashedShort
  by_cases hcancelled : d.cancelled = true
  · rw [if_pos hcancelled]
    exact h.fail _
  rw [if_neg hcancelled]
  dsimp only
  by_cases hredirect : isRedirect s.status = true
  · rw [if_pos hredirect]
    exact ⟨h.requests, h.few, by simp [asset_redirect hredirect, h.written],
      fun _ => by simpa [asset_redirect hredirect] using h.clean hnone,
      h.received,
      h.short, h.hashedShort, h.reports, h.sorted⟩
  have hbody := asset_body (by simpa using hredirect) s.buffer
  rw [if_neg hredirect]
  by_cases hlong : j.file.size - s.received < s.buffer.length
  · rw [if_pos hlong]
    refine ⟨h.requests, h.few, ?_,
      fun hnone' => by simp [Download.fail] at hnone',
      h.received, h.short, h.hashedShort, h.reports, h.sorted⟩
    show s.output <+: asset (s.bodies ++ [(s.status, s.buffer)])
    rw [asset_append]
    exact h.written.trans (List.prefix_append _ _)
  rw [if_neg hlong]
  cases htorn : d.torn with
  | some torn =>
      obtain ⟨written, message⟩ := torn
      refine ⟨h.requests, h.few, ?_,
        fun hnone' => by simp [Download.fail] at hnone',
        h.received, ?_, h.hashedShort, h.reports, h.sorted⟩
      · show s.output ++ s.buffer.take written
          <+: asset (s.bodies ++ [(s.status, s.buffer)])
        rw [asset_append, hbody, hasset]
        exact (List.prefix_append_right_inj _).2 (List.take_prefix _ _)
      · show ((s.output ++ s.buffer.take written).length : Int) ≤ _
        rw [List.length_append, List.length_take, hhashed]
        omega
  | none =>
      refine ⟨h.requests, h.few, ?_, fun _ => ⟨?_, ?_⟩, ?_, ?_, ?_,
        fun n hn => ?_,
        h.sorted⟩
      · show s.output ++ s.buffer
          <+: asset (s.bodies ++ [(s.status, s.buffer)])
        rw [asset_append, hbody, hasset]
      · show s.output ++ s.buffer = asset (s.bodies ++ [(s.status, s.buffer)])
        rw [asset_append, hbody, hasset]
      · show s.output ++ s.buffer = s.hashed ++ s.buffer
        rw [hhashed]
      · show s.received + s.buffer.length
          = ((s.hashed ++ s.buffer).length : Int)
        rw [List.length_append, hreceived]
        push_cast
        rfl
      · show ((s.output ++ s.buffer).length : Int) ≤ _
        rw [List.length_append, hhashed]
        omega
      · show ((s.hashed ++ s.buffer).length : Int) ≤ _
        rw [List.length_append]
        omega
      · have hn := h.reports n hn
        show 0 ≤ n ∧ n ≤ s.received + s.buffer.length
        omega

/-- Following a redirect asks for one URL more, which the check of the number
of redirects has left room for. -/
theorem Kept.follow (h : Kept j s) (target : Url)
    (hfew : s.requested.length ≤ 8) : Kept j (s.follow j target) := by
  unfold Download.follow
  split
  next => exact h.fail _
  next hallowed =>
    rw [not_or, not_and, not_not] at hallowed
    refine ⟨fun url hmem => ?_, ?_, h.written, h.clean, h.received, h.short,
      h.hashedShort,
      h.reports, h.sorted⟩
    · cases List.mem_append.1 hmem with
      | inl hold => exact h.requests url hold
      | inr hnew =>
          rw [List.mem_singleton.1 hnew]
          exact ⟨by simpa using hallowed.1, hallowed.2⟩
    · show (s.requested ++ [target]).length ≤ 9
      rw [List.length_append, List.length_singleton]
      omega

/-- One more report of what has been received. -/
theorem Kept.report (h : Kept j s) :
    Kept j { s with reports := s.reports ++ [s.received] } := by
  have hreceived := h.received
  refine ⟨h.requests, h.few, h.written, h.clean, h.received, h.short,
    h.hashedShort,
    fun n hn => ?_, ?_⟩
  · cases List.mem_append.1 hn with
    | inl hold => exact h.reports n hold
    | inr hnew =>
        rw [List.mem_singleton.1 hnew]
        exact ⟨by omega, Int.le_refl _⟩
  · refine List.pairwise_append.2 ⟨h.sorted, List.pairwise_singleton _ _, ?_⟩
    intro n hn m hm
    rw [List.mem_singleton.1 hm]
    exact (h.reports n hn).2

/-- A callback or a cancellation can end a download. Neither asks for a URL or
writes a byte. -/
theorem Kept.poll (h : Kept j s) (cancelled : Bool)
    (callback : Except Exn Unit) : Kept j (s.poll j cancelled callback) := by
  unfold Download.poll
  split
  next => exact h.fail _
  next =>
    split
    next =>
      have hreport := h.report
      cases callback with
      | ok u =>
          exact ⟨h.requests, h.few, h.written, h.clean, h.received, h.short,
            h.hashedShort,
            hreport.reports, hreport.sorted⟩
      | error e => exact hreport.fail e
    next => exact h

/-- The end changes the result, and may make one report. -/
theorem Kept.ends (h : Kept j s) (result : Except Exn Unit) :
    Kept j { s with result := some result } :=
  ⟨h.requests, h.few, h.written, h.clean, h.received, h.short,
    h.hashedShort, h.reports,
    h.sorted⟩

/-- Concluding compares and reports. It changes nothing that has
been written. -/
theorem Kept.conclude (h : Kept j s) (c : Conclusion) :
    Kept j (s.conclude j c) := by
  have hdrained := h.drain c.drain
  unfold Download.conclude
  dsimp only
  split
  next => exact hdrained.ends _
  next =>
    split
    next => exact hdrained.report.ends _
    next => exact hdrained.ends _

/-- One step of the download keeps the invariant, action by action. -/
theorem Kept.step (h : Kept j s) {a : Action} (hstep : step j s a = some s') :
    Kept j s' := by
  unfold Download.step at hstep
  split at hstep
  next => cases hstep
  next =>
    cases a with
    | respond status =>
        injection hstep with hstep
        subst hstep
        exact ⟨h.requests, h.few, h.written, h.clean, h.received, h.short,
          h.hashedShort,
          h.reports, h.sorted⟩
    | arrive bytes =>
        injection hstep with hstep
        subst hstep
        exact ⟨h.requests, h.few, h.written, h.clean, h.received, h.short,
          h.hashedShort,
          h.reports, h.sorted⟩
    | readyRead d =>
        injection hstep with hstep
        subst hstep
        exact h.drain d
    | redirected target =>
        simp only at hstep
        split at hstep
        next hfew =>
          injection hstep with hstep
          subst hstep
          exact h.follow target hfew
        next => cases hstep
    | timeout cancelled callback =>
        injection hstep with hstep
        subst hstep
        exact h.poll cancelled callback
    | finish error =>
        injection hstep with hstep
        subst hstep
        exact ⟨h.requests, h.few, h.written, h.clean, h.received, h.short,
          h.hashedShort,
          h.reports, h.sorted⟩
    | conclude c =>
        simp only at hstep
        split at hstep
        next =>
          injection hstep with hstep
          subst hstep
          exact h.conclude c
        next => cases hstep

/-- By induction, it holds however the network, the disk, the callback and the
token behave. -/
theorem run_kept (hurl : allowedUrl j.url = true) {actions : List Action}
    (hrun : System.run (step j) (start j) actions = some s) : Kept j s :=
  System.run_invariant (fun _ _ _ h hstep => h.step hstep) actions
    (kept_start hurl) hrun

-- ==================================================================== the end

/-- A download that has returned has passed every check. -/
structure Completed (j : DownloadJob) (s : Download) : Prop where
  failure : s.failure = none
  finished : s.finished ≠ some true
  status : s.status = 200
  received : s.received = j.file.size
  digest : j.lib.sha256Hex s.hashed = j.file.sha256
  report : j.progress = true → s.reports.getLast? = some j.file.size

/-- What the last check has found where it raises nothing: a whole file of the
promised size and digest. -/
theorem check_ok {c : Conclusion} (h : s.check j c = .ok ()) :
    s.failure = none ∧ s.finished ≠ some true ∧ s.status = 200
      ∧ s.received = j.file.size
      ∧ j.lib.sha256Hex s.hashed = j.file.sha256 := by
  unfold check at h
  cases hfailure : s.failure with
  | some e =>
      rw [hfailure] at h
      cases h
  | none =>
      rw [hfailure] at h
      dsimp only at h
      split at h
      next => cases h
      next =>
        obtain ⟨_, hreply, h⟩ := bind_eq_ok.1 h
        obtain ⟨_, hpinned, -⟩ := bind_eq_ok.1 h
        obtain ⟨hfinished, hstatus⟩ := demandThat_eq_ok.1 hreply
        obtain ⟨hreceived, hdigest⟩ := require_eq_ok.1 hpinned
        exact ⟨rfl, hfinished, hstatus, hreceived, hdigest⟩

theorem conclude_completed {c : Conclusion}
    (h : (s.conclude j c).result = some (.ok ())) :
    Completed j (s.conclude j c) := by
  unfold conclude at h ⊢
  dsimp only at h ⊢
  split at h
  next => simp at h
  next hcheck =>
    obtain ⟨hfailure, hfinished, hstatus, hreceived, hdigest⟩ :=
      check_ok hcheck
    split
    next => exact ⟨hfailure, hfinished, hstatus, hreceived,
      hdigest, by simp [hreceived]⟩
    next hno => exact ⟨hfailure, hfinished, hstatus, hreceived, hdigest,
        fun hyes => absurd hyes hno⟩

/-- Only the end has a result. -/
theorem step_result {a : Action} (hstep : step j s a = some s') :
    s.result = none ∧ (s'.result = none ∨ ∃ c, s' = s.conclude j c) := by
  unfold step at hstep
  split at hstep
  next => cases hstep
  next hnone =>
    have hnone : s.result = none := by simpa using hnone
    refine ⟨hnone, ?_⟩
    cases a with
    | respond status =>
        injection hstep with hstep
        exact Or.inl (hstep ▸ hnone)
    | arrive bytes =>
        injection hstep with hstep
        exact Or.inl (hstep ▸ hnone)
    | readyRead d =>
        injection hstep with hstep
        subst hstep
        left
        unfold drain fail
        dsimp only
        repeat' split
        all_goals exact hnone
    | redirected target =>
        simp only at hstep
        split at hstep
        next =>
          injection hstep with hstep
          subst hstep
          left
          unfold follow fail
          split <;> exact hnone
        next => cases hstep
    | timeout cancelled callback =>
        injection hstep with hstep
        subst hstep
        left
        unfold poll fail
        dsimp only
        repeat' split
        all_goals exact hnone
    | finish error =>
        injection hstep with hstep
        exact Or.inl (hstep ▸ hnone)
    | conclude c =>
        simp only at hstep
        split at hstep
        next =>
          injection hstep with hstep
          exact Or.inr ⟨c, hstep.symm⟩
        next => cases hstep

/-- A download reports success only through the last check, so a success always
has what that check found. -/
theorem run_completed {actions : List Action}
    (hrun : System.run (step j) (start j) actions = some s)
    (hresult : s.result = some (.ok ())) : Completed j s := by
  have hinv := System.run_invariant
    (I := fun s => s.result = some (.ok ()) → Completed j s)
    (fun s a s' _ hstep => ?_)
    actions (fun h => by simp [start] at h) hrun
  · exact hinv hresult
  · intro h
    cases (step_result hstep).2 with
    | inl hnone =>
        rw [hnone] at h
        cases h
    | inr hend =>
        obtain ⟨c, rfl⟩ := hend
        exact conclude_completed h

-- =============================================================== the failures

/-- What has failed writes nothing more. -/
structure Frozen (s t : Download) : Prop where
  failure : t.failure.isSome = true
  output : t.output = s.output

/-- After a failure nothing is written and no URL is asked for,
whatever still arrives. -/
theorem Frozen.step {u : Download} (h : Frozen u s) {a : Action}
    (hstep : step j s a = some s') : Frozen u s' := by
  have hfailed := h.failure
  have hdrain : ∀ d, s.drain j d = s := fun d => if_pos hfailed
  unfold Download.step at hstep
  split at hstep
  next => cases hstep
  next =>
    cases a with
    | respond status =>
        injection hstep with hstep
        exact hstep ▸ ⟨h.failure, h.output⟩
    | arrive bytes =>
        injection hstep with hstep
        exact hstep ▸ ⟨h.failure, h.output⟩
    | readyRead d =>
        injection hstep with hstep
        rw [hdrain] at hstep
        exact hstep ▸ h
    | redirected target =>
        simp only at hstep
        split at hstep
        next =>
          injection hstep with hstep
          subst hstep
          unfold follow
          split
          next => exact ⟨rfl, h.output⟩
          next => exact ⟨h.failure, h.output⟩
        next => cases hstep
    | timeout cancelled callback =>
        injection hstep with hstep
        subst hstep
        unfold poll
        split
        next => exact ⟨rfl, h.output⟩
        next =>
          split
          next =>
            cases callback with
            | ok u => exact ⟨h.failure, h.output⟩
            | error e => exact ⟨rfl, h.output⟩
          next => exact h
    | finish error =>
        injection hstep with hstep
        exact hstep ▸ ⟨h.failure, h.output⟩
    | conclude c =>
        simp only at hstep
        split at hstep
        next =>
          injection hstep with hstep
          subst hstep
          unfold conclude
          rw [hdrain]
          dsimp only
          repeat' split
          all_goals exact ⟨h.failure, h.output⟩
        next => cases hstep

/-- The same for all that happens after the failure. -/
theorem run_frozen (hfailed : s.failure.isSome = true) {actions : List Action}
    (hrun : System.run (step j) s actions = some s') : Frozen s s' :=
  System.run_invariant (fun _ _ _ h hstep => h.step hstep) actions
    (show Frozen s s from ⟨hfailed, rfl⟩) hrun

-- ============================================================ the single step

/-- Bytes that fit are received, whatever the pieces. The induction is on them,
with what came before as its parameter. -/
theorem receive_pieces {chance : PullChance} {file : ModelFile}
    (htoken : ∀ poll, chance.token poll = false)
    (hstage : ∀ op, chance.stage.fails op = false)
    (lib : ModelsDirectory.Library) :
    ∀ (pieces : List (List UInt8)) (n : Nat) (data : List UInt8),
      ((data ++ pieces.flatten).length : Int) ≤ file.size →
      receive lib chance file pieces n data
        = .ok (data ++ pieces.flatten) := by
  intro pieces
  induction pieces with
  | nil =>
      intro n data _
      rw [List.flatten_nil, List.append_nil]
      rfl
  | cons piece rest ih =>
      intro n data hlength
      have hlength' := hlength
      simp only [List.flatten_cons, List.length_append,
        Nat.cast_add] at hlength'
      have hrest := ih (n + 1) (data ++ piece)
        (by rw [List.append_assoc, ← List.flatten_cons]; exact hlength)
      have hfits : (piece.length : Int) ≤ file.size - data.length := by omega
      rw [List.flatten_cons, ← List.append_assoc]
      have hpoll : ModelsDirectory.throwIf chance.token (.received file.path n)
          = .ok () :=
        if_neg (by simp [htoken])
      unfold receive
      refine bind_eq_ok.2 ⟨(), hpoll, ?_⟩
      refine bind_eq_ok.2 ⟨(), require_eq_ok.2 hfits, ?_⟩
      exact bind_eq_ok.2 ⟨(), demandThat_eq_ok.2 (hstage _), hrest⟩

/-- The pieces of a download, as the directory of models takes them. -/
def chanceOf (bodies : List (Int × List UInt8)) : PullChance :=
  { transfer := fun _ =>
      { pieces := (bodies.filter fun body => !isRedirect body.1).map Prod.snd }
          }

/-- A download that returns is one step of the pull. -/
theorem Kept.refines (h : Kept j s) (hcompleted : Completed j s)
    (url : QString) (staged : Staged)
    (hfree : blocked staged (j.file.path.splitOn (qc '/')) = false
      ∧ covered staged (j.file.path.splitOn (qc '/')) = false) :
    ModelsDirectory.download j.lib (chanceOf s.bodies) url j.file staged
      = .ok (staged ++ [(j.file.path.splitOn (qc '/'), s.output)]) := by
  obtain ⟨hasset, hhashed⟩ := h.clean hcompleted.failure
  have hlength : (s.output.length : Int) = j.file.size := by
    rw [hhashed, ← h.received, hcompleted.received]
  have hpieces : ((chanceOf s.bodies).transfer url).pieces.flatten
      = s.output := by
    rw [hasset]
    exact List.flatMap_def.symm
  have hreceive := @receive_pieces (chanceOf s.bodies) j.file (fun _ => rfl)
    (fun _ => rfl) j.lib ((chanceOf s.bodies).transfer url).pieces 0 []
    (by rw [List.nil_append, hpieces, hlength])
  rw [List.nil_append, hpieces] at hreceive
  have hdigest : j.lib.sha256Hex s.output = j.file.sha256 := by
    rw [hhashed, hcompleted.digest]
  refine bind_eq_ok.2 ⟨(), demandThat_eq_ok.2 ⟨rfl, hfree.1, hfree.2⟩,
    bind_eq_ok.2 ⟨s.output, hreceive, ?_⟩⟩
  refine bind_eq_ok.2 ⟨(), rfl, bind_eq_ok.2 ⟨(), demandThat_eq_ok.2 rfl, ?_⟩⟩
  exact bind_eq_ok.2 ⟨(), require_eq_ok.2 ⟨hlength, hdigest⟩,
    bind_eq_ok.2 ⟨(), demandThat_eq_ok.2 rfl, rfl⟩⟩

/-- What a download guarantees at any time. -/
structure Downloads (j : DownloadJob) (s : Download) : Prop where
  /-- Every URL that was asked for is allowed, and encrypted
  where the first one is. -/
  requests : ∀ url ∈ s.requested, allowedUrl url = true
    ∧ (j.url.scheme = qs "https" → url.scheme = qs "https")
  few : s.requested.length ≤ 9
  /-- Never more than the pinned size is written, and no body of a redirect. -/
  short : (s.output.length : Int) ≤ max 0 j.file.size
  written : s.output <+: asset s.bodies
  /-- The callback sees the count grow, up to the pinned size. -/
  reports : s.reports.Pairwise (· ≤ ·)
    ∧ ∀ n ∈ s.reports, 0 ≤ n ∧ n ≤ max 0 j.file.size
  /-- After a failure nothing more is written, and the download fails. -/
  failed : s.failure.isSome = true →
    ∀ more t, System.run (step j) s more = some t →
    t.output = s.output ∧ t.result ≠ some (.ok ())
  /-- A download that returns has the pinned bytes, from one reply with
  status 200, and has reported them. -/
  completed : s.result = some (.ok ()) →
    s.status = 200 ∧ s.output = asset s.bodies
    ∧ (s.output.length : Int) = j.file.size
    ∧ j.lib.sha256Hex s.output = j.file.sha256
    ∧ (j.progress = true → s.reports.getLast? = some j.file.size)
  /-- And is a step of the pull, which puts them where the file belongs. -/
  refines : s.result = some (.ok ()) → ∀ (url : QString) (staged : Staged),
    blocked staged (j.file.path.splitOn (qc '/')) = false →
    covered staged (j.file.path.splitOn (qc '/')) = false →
    ModelsDirectory.download j.lib (chanceOf s.bodies) url j.file staged
      = .ok (staged ++ [(j.file.path.splitOn (qc '/'), s.output)])

/-- **A download is safe in any order of events**, whatever the network sends,
redirects to or breaks off. Never more than the announced size is written, and
a download that returns has the pinned bytes in its file. -/
theorem run_downloads (j : DownloadJob) (hurl : allowedUrl j.url = true)
    (actions : List Action)
    (hrun : System.run (step j) (start j) actions = some s) :
    Downloads j s := by
  have hkept := run_kept hurl hrun
  have hreceived := hkept.received
  have hhashed := hkept.hashedShort
  exact
    { requests := hkept.requests
      few := hkept.few
      short := hkept.short
      written := hkept.written
      reports := ⟨hkept.sorted, fun n hn => by
        have := hkept.reports n hn
        omega⟩
      failed := fun hfailed more t hmore => by
        have hfrozen := run_frozen hfailed hmore
        refine ⟨hfrozen.output, fun hresult => ?_⟩
        have hcompleted := run_completed
          (System.run_append_eq_some.2 ⟨s, hrun, hmore⟩) hresult
        have hnot := hfrozen.failure
        rw [hcompleted.failure] at hnot
        cases hnot
      completed := fun hresult => by
        have hcompleted := run_completed hrun hresult
        obtain ⟨hasset, hsame⟩ := hkept.clean hcompleted.failure
        refine ⟨hcompleted.status, hasset, ?_, ?_, hcompleted.report⟩
        · rw [hsame, ← hreceived, hcompleted.received]
        · rw [hsame, hcompleted.digest]
      refines := fun hresult url staged hblocked hcovered =>
        hkept.refines (run_completed hrun hresult) url staged
          ⟨hblocked, hcovered⟩ }

/-- A download of four bytes behind a redirect, in two pieces. -/
def sampleJob : DownloadJob where
  lib := ModelsDirectory.Sample.library
  url := { isValid := true, scheme := qs "https", host := qs "host" }
  file := ⟨qs "model.gguf", 4,
    qs "b83633aa785344791618f2fddf131b010ea04912a60430760b070bad293f65bd"⟩
  progress := true

theorem run_downloads_redirected :
    ∃ s, System.run (step sampleJob) (start sampleJob) [.respond 302,
        .arrive [1, 2],
        .readyRead {}, .redirected
          { isValid := true, scheme := qs "https", host := qs "cdn" },
        .respond 200, .arrive [71, 71], .readyRead {}, .timeout false (.ok ()),
        .arrive [85, 70], .readyRead {}, .finish false, .conclude {}] = some s
      ∧ s.result = some (.ok ()) ∧ s.output = [71, 71, 85, 70]
      ∧ s.reports = [2, 4]
      ∧ Downloads sampleJob s :=
  ⟨_, rfl, rfl, rfl, rfl, run_downloads sampleJob rfl [.respond 302,
    .arrive [1, 2],
    .readyRead {}, .redirected
      { isValid := true, scheme := qs "https", host := qs "cdn" },
    .respond 200, .arrive [71, 71], .readyRead {}, .timeout false (.ok ()),
    .arrive [85, 70], .readyRead {}, .finish false, .conclude {}] rfl⟩

-- ================================================================= the pieces

/-- Between two pieces of a body that arrives. -/
structure Arriving (s : Download) (data : List UInt8) : Prop where
  result : s.result = none
  failure : s.failure = none
  status : s.status = 200
  buffer : s.buffer = []
  output : s.output = data
  hashed : s.hashed = data
  received : s.received = data.length

/-- What a piece brings. -/
def arrival (piece : List UInt8) :
    List Action := [.arrive piece, .readyRead {}]

/-- One piece that still fits into the announced size is written
and hashed as it came. -/
theorem arrive_piece {data piece : List UInt8} (h : Arriving s data)
    (hfits : ((data ++ piece).length : Int) ≤ j.file.size) :
    ∃ t, System.run (step j) s (arrival piece) = some t
      ∧ Arriving t (data ++ piece) := by
  have hresult := h.result
  have hfailure := h.failure
  have hstatus := h.status
  have hreceived := h.received
  have hlength : ¬ j.file.size - data.length < (piece.length : Int) := by
    rw [List.length_append] at hfits
    omega
  refine ⟨{ s with
      output := s.output ++ piece
      hashed := s.hashed ++ piece
      received := s.received + piece.length
      bodies := s.bodies ++ [(s.status, piece)]
      buffer := [] }, ?_, ?_⟩
  · simp [System.run, arrival, step, drain, hresult, hfailure, hstatus,
      h.buffer, hreceived,
      hlength, isRedirect]
  · exact ⟨hresult, hfailure, hstatus,
      rfl, by simp [h.output], by simp [h.hashed],
      by simp [hreceived]⟩

/-- By induction on the pieces, all of them are. -/
theorem arrive_pieces :
    ∀ {pieces : List (List UInt8)} {s : Download} {data : List UInt8},
    Arriving s data → ((data ++ pieces.flatten).length : Int) ≤ j.file.size →
    ∃ t, System.run (step j) s (pieces.flatMap arrival) = some t
      ∧ Arriving t (data ++ pieces.flatten) := by
  intro pieces
  induction pieces with
  | nil =>
      intro s data h _
      exact ⟨s, rfl, by simpa using h⟩
  | cons piece rest ih =>
      intro s data h hfits
      rw [List.flatten_cons, ← List.append_assoc] at hfits ⊢
      have hfirst : ((data ++ piece).length : Int) ≤ j.file.size := by
        rw [List.length_append] at hfits
        omega
      obtain ⟨t, ht, harriving⟩ := arrive_piece h hfirst
      obtain ⟨u, hu, hall⟩ := ih harriving hfits
      refine ⟨u, ?_, hall⟩
      rw [List.flatMap_cons]
      exact System.run_append_eq_some.2 ⟨t, ht, hu⟩

/-- The end of a body that has arrived. -/
theorem conclude_arrived {data : List UInt8} (h : Arriving s data)
    (hsize : (data.length : Int) = j.file.size)
    (hdigest : j.lib.sha256Hex data = j.file.sha256) :
    ∃ t, System.run (step j) s [.finish false, .conclude {}] = some t
      ∧ t.result = some (.ok ()) ∧ t.output = data := by
  obtain ⟨hresult, hfailure, hstatus, hbuffer, houtput, hhashed,
    hreceived⟩ := h
  have hdrain : ({ s with finished := some false } : Download).drain j {}
      = { s with
          finished := some false
          bodies := s.bodies ++ [(s.status, [])] } := by
    simp [drain, hfailure, hstatus, hbuffer, hreceived, hsize, isRedirect]
  have hcheck : ({ s with
      finished := some false, bodies := s.bodies ++ [(s.status, [])] } :
        Download).check j {}
        = .ok () := by
    simp [check, hfailure, hstatus, hreceived, hsize, hhashed, hdigest,
      demandThat, require]
    rfl
  refine ⟨({ s with finished := some false } : Download).conclude j {}, ?_, ?_⟩
  · simp [System.run, step, hresult]
  · unfold conclude
    rw [hdrain]
    dsimp only
    rw [hcheck]
    dsimp only
    split
    next => exact ⟨rfl, houtput⟩
    next => exact ⟨rfl, houtput⟩

/-- **The pinned bytes are accepted, however they are cut.** This is the other
half of safety: a download that only ever failed would be safe as well. -/
theorem pieces_delivered (j : DownloadJob) (pieces : List (List UInt8))
    (hsize : (pieces.flatten.length : Int) = j.file.size)
    (hdigest : j.lib.sha256Hex pieces.flatten = j.file.sha256) :
    ∃ s, System.run (step j) (start j)
        ([.respond 200] ++ pieces.flatMap arrival
          ++ [.finish false, .conclude {}]) = some s
      ∧ s.result = some (.ok ()) ∧ s.output = pieces.flatten := by
  have hstart : Arriving { start j with status := 200 } [] :=
    ⟨rfl, rfl, rfl, rfl, rfl, rfl, rfl⟩
  obtain ⟨t, ht, harriving⟩ := @arrive_pieces _ pieces _ _ hstart
    (by rw [List.nil_append, hsize])
  rw [List.nil_append] at harriving
  obtain ⟨s, hs, hgoal⟩ := conclude_arrived harriving hsize hdigest
  refine ⟨s, System.run_append_eq_some.2 ⟨t, ?_, hs⟩, hgoal⟩
  exact System.run_append_eq_some.2 ⟨_, rfl, ht⟩

theorem pieces_delivered_sample :
    ∃ s, System.run (step sampleJob) (start sampleJob)
        ([.respond 200] ++ [[71, 71], [], [85, 70]].flatMap arrival
          ++ [.finish false, .conclude {}]) = some s
      ∧ s.result = some (.ok ())
      ∧ s.output = [[71, 71], [], [85, 70]].flatten :=
  pieces_delivered sampleJob [[71, 71], [], [85, 70]] rfl rfl

end Download

end LocalLLM
