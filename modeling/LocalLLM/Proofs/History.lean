/-
The shape of a session's history.

A history is `Shaped` when it is an optional system message and then whole
turns: a user message and the answer to it. Sessions begin so, a reset
keeps so much of them, and a chat that commits adds one turn to what is
left of the history. A completion must bring such a history with it.

`prepare` drops messages two at a time, by position. Because histories are
shaped, the two are always a turn (`dropTurn_drops_turn`).
-/
import LocalLLM.Proofs.Worker

namespace LocalLLM

open Std PromptEngine

variable {c : Config}

-- ================================================================== the shape

/-- Whole turns. -/
inductive Turns : List ChatMessage → Prop
  | nil : Turns []
  | cons {user assistant : ChatMessage} {rest : List ChatMessage} :
      user.role = .User → assistant.role = .Assistant → Turns rest →
      Turns (user :: assistant :: rest)

/-- A system message, or none. -/
def Preamble (system : List ChatMessage) : Prop :=
  system = [] ∨ ∃ message : ChatMessage,
    system = [message] ∧ message.role = .System

/-- An optional system message and whole turns. -/
def Shaped (messages : List ChatMessage) : Prop :=
  ∃ system turns, messages = system ++ turns ∧ Preamble system ∧ Turns turns

/-- Every history is shaped. -/
def AllShaped (sessions : SessionManager) : Prop :=
  ∀ (id : QString) (session : SessionSnapshot),
    sessions.sessions[id]? = some session → Shaped session.messages

/-- Dropping whole turns from the front leaves whole turns. -/
theorem Turns.drop {turns : List ChatMessage} (h : Turns turns) :
    ∀ k, Turns (turns.drop (2 * k)) := by
  induction h with
  | nil =>
      intro k
      rw [List.drop_nil]
      exact .nil
  | cons huser hassistant hrest ih =>
      intro k
      cases k with
      | zero => exact .cons huser hassistant hrest
      | succ k => exact ih k

/-- A user message and its reply are one turn more. -/
theorem Turns.snoc {turns : List ChatMessage} (h : Turns turns)
    {user assistant : ChatMessage} (huser : user.role = .User)
    (hassistant : assistant.role = .Assistant) :
    Turns (turns ++ [user, assistant]) := by
  induction h with
  | nil => exact .cons huser hassistant .nil
  | cons huser' hassistant' _ ih => exact .cons huser' hassistant' ih

/-- The oldest turn stands after the system message. -/
theorem firstTurn_append {system turns : List ChatMessage}
    (hsystem : Preamble system) (hturns : Turns turns) (prompt : ChatMessage)
    (hprompt : prompt.role ≠ .System) :
    firstTurn (system ++ turns ++ [prompt]) = system.length
      ∧ firstTurn (system ++ turns) = system.length := by
  cases hsystem with
  | inl hnil =>
      subst hnil
      cases hturns with
      | nil => exact ⟨if_neg hprompt, rfl⟩
      | cons huser _ _ =>
          have hne : ∀ user : ChatMessage, user.role = .User →
              user.role ≠ .System := by
            intro user h
            rw [h]
            decide
          exact ⟨if_neg (hne _ huser), if_neg (hne _ huser)⟩
  | inr hone =>
      obtain ⟨message, hone, hrole⟩ := hone
      subst hone
      exact ⟨if_pos hrole, if_pos hrole⟩

theorem shaped_nil : Shaped [] := ⟨[], [], rfl, Or.inl rfl, .nil⟩

/-- A session that only has its system message is in shape. -/
theorem shaped_system (content : QString) :
    Shaped [{ role := .System, content }] :=
  ⟨[{ role := .System, content }], [], rfl, Or.inr ⟨_, rfl, rfl⟩, .nil⟩

/-- A reset leaves the system message. -/
theorem shaped_afterReset (messages : List ChatMessage) :
    Shaped (SessionManager.afterReset messages) := by
  cases messages with
  | nil => exact shaped_nil
  | cons front rest =>
      show Shaped (if front.role = .System then [front] else [])
      by_cases hrole : front.role = .System
      · rw [if_pos hrole]
        exact ⟨[front], [], rfl, Or.inr ⟨front, rfl, hrole⟩, .nil⟩
      · rw [if_neg hrole]
        exact shaped_nil

/-- A commit adds a turn to what is left of a history. -/
theorem Shaped.committed {messages : List ChatMessage} (h : Shaped messages)
    (k : Nat) (prompt answer : QString) :
    Shaped (trimmedHistory messages (2 * k)
      ++ [{ role := .User, content := prompt }]
      ++ [assistantMessage answer]) := by
  obtain ⟨system, turns, heq, hsystem, hturns⟩ := h
  have hfirst := (firstTurn_append hsystem hturns
    { role := .User, content := prompt } (by simp)).2
  refine ⟨system, turns.drop (2 * k) ++ [{ role := .User, content := prompt },
    assistantMessage answer], ?_, hsystem, (hturns.drop k).snoc rfl rfl⟩
  unfold trimmedHistory
  rw [heq, hfirst, List.take_left, List.drop_left]
  simp

-- =============================================================== the trimming

/-- What the loop of `prepare` tries is the history less some of its oldest
turns, or too short to drop more. -/
theorem iterate_dropTurn {system turns : List ChatMessage}
    (hturns : Turns turns) (prompt : ChatMessage) (k : Nat) :
    (∃ rest, Turns rest
        ∧ (dropTurn system.length)^[k] (system ++ turns ++ [prompt])
          = system ++ rest ++ [prompt])
      ∨ ((dropTurn system.length)^[k] (system ++ turns ++ [prompt])).length
        ≤ system.length + 1 := by
  induction k with
  | zero => exact Or.inl ⟨turns, hturns, rfl⟩
  | succ k ih =>
      rw [Function.iterate_succ_apply']
      have hshorter : ∀ l : List ChatMessage,
          (dropTurn system.length l).length ≤ l.length := by
        intro l
        unfold dropTurn
        rw [List.length_append, List.length_take, List.length_drop]
        omega
      cases ih with
      | inr hshort => exact Or.inr (Nat.le_trans (hshorter _) hshort)
      | inl h =>
          obtain ⟨rest, hrest, heq⟩ := h
          rw [heq]
          cases hrest with
          | nil =>
              right
              apply Nat.le_trans (hshorter _)
              simp
          | cons huser hassistant hmore =>
              left
              refine ⟨_, hmore, ?_⟩
              unfold dropTurn
              rw [List.append_assoc, List.take_left,
                List.drop_length_add_append]
              simp

/-- Whenever the loop of `prepare` drops two messages of a shaped history,
they are a user message and its answer: the system message and the new
prompt stay. -/
theorem dropTurn_drops_turn {messages : List ChatMessage} (h : Shaped messages)
    {prompt : ChatMessage} (hprompt : prompt.role = .User) (k : Nat)
    (hroom : firstTurn (messages ++ [prompt]) + 2
      < ((dropTurn (firstTurn (messages ++ [prompt])))^[k]
          (messages ++ [prompt])).length) :
    ∃ system user assistant rest, Preamble system
      ∧ user.role = .User ∧ assistant.role = .Assistant
      ∧ system = messages.take (firstTurn (messages ++ [prompt]))
      ∧ (dropTurn (firstTurn (messages ++ [prompt])))^[k]
        (messages ++ [prompt])
        = system ++ user :: assistant :: rest ++ [prompt]
      ∧ (dropTurn (firstTurn (messages ++ [prompt])))^[k + 1]
          (messages ++ [prompt])
        = system ++ rest ++ [prompt] := by
  obtain ⟨system, turns, heq, hsystem, hturns⟩ := h
  have hfirst := (firstTurn_append hsystem hturns prompt
    (by rw [hprompt]; decide)).1
  rw [heq, hfirst] at hroom ⊢
  cases @iterate_dropTurn system turns hturns prompt k with
  | inr hshort => omega
  | inl h =>
      obtain ⟨rest, hrest, htried⟩ := h
      rw [htried] at hroom
      cases hrest with
      | nil =>
          simp at hroom
      | @cons user assistant rest huser hassistant hmore =>
          refine ⟨system, user, assistant, rest, hsystem, huser, hassistant,
            by rw [List.take_left], htried, ?_⟩
          rw [Function.iterate_succ_apply', htried]
          unfold dropTurn
          rw [List.append_assoc, List.take_left, List.drop_length_add_append]
          simp

-- =============================================================== the sessions

/-- Storing a session in shape keeps all of them so. -/
theorem AllShaped.insert {sessions sessions' : SessionManager}
    (h : AllShaped sessions) {id : QString} {session : SessionSnapshot}
    (heq : sessions'.sessions = sessions.sessions.insert id session)
    (hshaped : Shaped session.messages) : AllShaped sessions' := by
  intro other found hfind
  rw [heq, Maps.find_insert] at hfind
  split at hfind
  · injection hfind with hfind
    rw [← hfind]
    exact hshaped
  · exact h other found hfind

/-- The same where only the messages of a session change. -/
theorem AllShaped.setMessages {sessions : SessionManager}
    (h : AllShaped sessions)
    (session : SessionSnapshot) {messages : List ChatMessage}
    (hshaped : Shaped messages) :
    AllShaped (sessions.setMessages session messages) :=
  h.insert rfl hshaped

/-- A session begins with its system prompt, or with nothing. -/
theorem AllShaped.create {sessions sessions' : SessionManager} {limit : Nat}
    {id modelId system : QString} (h : AllShaped sessions)
    (hcreate : sessions.create limit id modelId system = .ok sessions') :
    AllShaped sessions' := by
  unfold SessionManager.create at hcreate
  obtain ⟨_, -, hcreate⟩ := bind_eq_ok.1 hcreate
  injection hcreate with hcreate
  subst hcreate
  by_cases hnew : sessions.sessions[id]? = none
  · refine h.insert (Maps.insertIfNew_of_none _ _ hnew) ?_
    dsimp only
    split
    · exact shaped_nil
    · exact shaped_system _
  · intro other found hfind
    dsimp only at hfind
    rw [ExtTreeMap.getElem?_insertIfNew, if_neg] at hfind
    · exact h other found hfind
    · intro hboth
      exact hnew ((Maps.not_mem_iff_find _ _).1 hboth.2)

/-- A session that is made on the way of a task. -/
theorem newSession_shaped {s : State} (h : AllShaped s.sessions)
    (modelId system : QString) :
    let after := fun s' : State => AllShaped s'.sessions
    Exec.wp (newSession c modelId system) (fun _ => after)
      (fun _ => after) s := by
  unfold newSession
  dsimp only
  rw [Exec.wp_bind, Exec.wp_get, Exec.wp_bind, Exec.wp_ofExcept]
  refine ⟨fun sessions hcreate => ?_, fun _ _ => h⟩
  rw [Exec.wp_bind, Exec.wp_set, Exec.wp_pure]
  exact h.create hcreate

-- ============================================================ the completions

/-- The check of a completion's messages: after the system message they are
turns, up to the prompt. -/
theorem checkTurns_turns : ∀ (n : Nat) (messages : List ChatMessage)
    (characters : Int), messages.length ≤ n →
    checkTurns c false characters .User messages = .ok () →
    messages.getLast?.map ChatMessage.role = some .User →
    Turns messages.dropLast := by
  intro n
  induction n with
  | zero =>
      intro messages characters hlen _ _
      have hnil : messages = [] := List.eq_nil_of_length_eq_zero (by omega)
      subst hnil
      exact .nil
  | succ n ih =>
      intro messages characters hlen hcheck hlast
      cases messages with
      | nil => exact .nil
      | cons user rest =>
          unfold checkTurns at hcheck
          obtain ⟨_, -, hcheck⟩ := bind_eq_ok.1 hcheck
          rw [if_neg (by simp)] at hcheck
          obtain ⟨_, huser, hcheck⟩ := bind_eq_ok.1 hcheck
          rw [require_eq_ok] at huser
          cases rest with
          | nil => exact .nil
          | cons assistant rest =>
              unfold checkTurns at hcheck
              obtain ⟨_, -, hcheck⟩ := bind_eq_ok.1 hcheck
              rw [if_neg (by simp)] at hcheck
              obtain ⟨_, hassistant, hcheck⟩ := bind_eq_ok.1 hcheck
              rw [require_eq_ok, if_pos rfl] at hassistant
              cases rest with
              | nil =>
                  -- the last message is the prompt
                  rw [List.getLast?_cons_cons,
                    List.getLast?_singleton] at hlast
                  rw [Option.map_some, hassistant] at hlast
                  cases hlast
              | cons next rest =>
                  rw [if_pos rfl] at hcheck
                  refine .cons huser hassistant
                    (ih (next :: rest) _ ?_ hcheck ?_)
                  · simp only [List.length_cons] at hlen ⊢
                    omega
                  · rw [← hlast, List.getLast?_cons_cons,
                      List.getLast?_cons_cons]

/-- A completion that passes brings a shaped history with it, which is why its
temporary session needs no exception. -/
theorem shaped_of_checkTurns {messages : List ChatMessage}
    (hcheck : checkTurns c true 0 .User messages = .ok ())
    (hlast : messages.getLast?.map ChatMessage.role = some .User) :
    Shaped messages.dropLast := by
  cases messages with
  | nil => exact shaped_nil
  | cons front rest =>
      by_cases hsystem : front.role = .System
      · unfold checkTurns at hcheck
        obtain ⟨_, -, hcheck⟩ := bind_eq_ok.1 hcheck
        rw [if_pos ⟨rfl, hsystem⟩] at hcheck
        cases rest with
        | nil => exact shaped_nil
        | cons next rest =>
            rw [List.getLast?_cons_cons] at hlast
            exact ⟨[front], (next :: rest).dropLast, rfl,
              Or.inr ⟨front, rfl, hsystem⟩,
              checkTurns_turns _ _ _ le_rfl hcheck hlast⟩
      · -- without a system message the first check is like the others
        have hsame : checkTurns c false 0 .User (front :: rest) = .ok () := by
          have hfirst : ¬ (true = true ∧ front.role = .System) :=
            fun h => hsystem h.2
          have hlater : ¬ (false = true ∧ front.role = .System) := by simp
          unfold checkTurns at hcheck ⊢
          dsimp only at hcheck ⊢
          rw [if_neg hfirst] at hcheck
          rw [if_neg hlater]
          exact hcheck
        exact ⟨[], (front :: rest).dropLast, rfl, Or.inl rfl,
          checkTurns_turns _ _ _ le_rfl hsame hlast⟩

/-- A completion works on a session that is shaped like any other. -/
theorem openCompletion_shaped {env : Env}
    (completion : Option CompletionRequest)
    {t : Turn} (h : AllShaped t.state.sessions) :
    let after := fun t' : Turn => AllShaped t'.state.sessions
    Exec.wp (openCompletion c env completion) (fun _ => after) (fun _ => after)
      t := by
  cases completion with
  | none => exact h
  | some asked =>
      unfold openCompletion openTemporary
      dsimp only
      rw [Exec.wp_bind, Exec.wp_get, Exec.wp_bind, wp_lift]
      refine ⟨fun info _ => ?_, fun _ _ => h⟩
      rw [Exec.wp_bind, wp_lift]
      refine ⟨fun _ _ => ?_, fun _ _ => h⟩
      rw [Exec.wp_bind, wp_lift]
      refine ⟨fun _ hlast => ?_, fun _ _ => h⟩
      rw [require_eq_ok] at hlast
      rw [Exec.wp_bind, wp_lift]
      refine ⟨fun _ hcheck => ?_, fun _ _ => h⟩
      rw [Exec.wp_bind, wp_onState]
      refine Exec.wp_mono (newSession_shaped h info.manifest.id []) ?_ ?_
      case refine_2 => exact fun _ s' hs' => hs'
      intro id s' hs'
      rw [Exec.wp_bind, Exec.wp_modify, Exec.wp_bind,
        Exec.wp_get, Exec.wp_bind,
        wp_lift]
      refine ⟨fun temporary _ => ?_, fun _ _ => hs'⟩
      rw [Exec.wp_set]
      exact AllShaped.setMessages hs' temporary
        (shaped_of_checkTurns hcheck hlast)

-- =================================================================== the runs

/-- A chat keeps every history shaped. -/
theorem ChatAtomic.shaped {env : Env} {s s' : State} {request : ChatRequest}
    {o : Settled} (h : ChatAtomic c env s s' request o)
    (hs : AllShaped s.sessions) : AllShaped s'.sessions := by
  by_cases hdone : o.result.succeeded
  · obtain ⟨session, model, prepared, k, hfind, -, hmessages, hafter⟩ :=
      h.committed hdone
    intro id found hfound
    by_cases hid : id = request.sessionId
    · rw [hid, hafter] at hfound
      injection hfound with hfound
      rw [← hfound]
      show Shaped (prepared.messages ++ [assistantMessage o.result.text])
      rw [hmessages]
      exact (hs _ _ hfind).committed k _ _
    · rw [h.others id hid] at hfound
      exact hs id found hfound
  · rw [(h.rolledBack hdone).1]
    exact hs

/-- A task that leaves the sessions alone. -/
theorem AllShaped.of_same {s s' : State} (h : AllShaped s.sessions)
    (hsame : s'.sessions = s.sessions) : AllShaped s'.sessions := by
  rw [hsame]
  exact h

/-- The state after a request is the one its task leaves; the
answer adds nothing. -/
theorem shaped_bind {α : Type} {s : State} {m : Task α} {f : α → Answer}
    (h : AllShaped (m s).2.sessions) :
    AllShaped ((m >>= fun a => pure (f a)) s).2.sessions := by
  rw [Exec.bind_pure_state]
  exact h

/-- A new session begins with its system message, if it has one,
and no turns. -/
theorem createSession_shaped {s : State} (h : AllShaped s.sessions) (env : Env)
    (model system : QString) :
    AllShaped (createSession c env model system s).2.sessions := by
  refine Exec.wp_final (P := fun s' : State => AllShaped s'.sessions) ?_
  unfold createSession check
  rw [Exec.wp_bind, Exec.wp_get, Exec.wp_bind, Exec.wp_ofExcept]
  refine ⟨fun info _ => ?_, fun _ _ => h⟩
  rw [Exec.wp_bind, Exec.wp_ofExcept]
  refine ⟨fun _ _ => ?_, fun _ _ => h⟩
  rw [Exec.wp_bind, Exec.wp_ofExcept]
  exact ⟨fun _ _ => newSession_shaped h _ _, fun _ _ => h⟩

/-- A reset keeps the system message, if there is one, and drops the turns. -/
theorem resetSession_shaped {s : State} (h : AllShaped s.sessions)
    (id : QString) : AllShaped (resetSession id s).2.sessions := by
  refine Exec.wp_final (P := fun s' : State => AllShaped s'.sessions) ?_
  unfold resetSession
  rw [Exec.wp_bind, Exec.wp_get, Exec.wp_bind, Exec.wp_ofExcept]
  refine ⟨fun sessions hreset => ?_, fun _ _ => h⟩
  unfold SessionManager.reset at hreset
  obtain ⟨session, -, hreset⟩ := bind_eq_ok.1 hreset
  injection hreset with hreset
  subst hreset
  rw [Exec.wp_modify]
  exact h.setMessages session (shaped_afterReset _)

/-- Closing drops a session and leaves the other histories alone. -/
theorem closeSession_shaped {s : State} (h : AllShaped s.sessions)
    (id : QString) : AllShaped (closeSession id s).2.sessions := by
  refine Exec.wp_final (P := fun s' : State => AllShaped s'.sessions) ?_
  unfold closeSession
  rw [Exec.wp_bind, Exec.wp_get, Exec.wp_bind, Exec.wp_ofExcept]
  refine ⟨fun sessions hclose => ?_, fun _ _ => h⟩
  unfold SessionManager.close at hclose
  obtain ⟨session, -, hclose⟩ := bind_eq_ok.1 hclose
  injection hclose with hclose
  subst hclose
  rw [Exec.wp_modify]
  intro other found hfound
  have hfound : (s.sessions.sessions.erase id)[other]? = some found := hfound
  rw [Maps.find_erase] at hfound
  split at hfound
  · cases hfound
  · exact h other found hfound

/-- The manager's own tasks leave the sessions alone. -/
theorem load_sessions {s : State} (h : Idle c s) (env : Env)
    (request : ModelLoadRequest) :
    (ModelManager.load c env request s).2.sessions = s.sessions := by
  refine Exec.wp_final (P := fun s' : State => s'.sessions = s.sessions)
    (Exec.wp_mono (ModelManager.load_spec h.sound env request) ?_ ?_)
  · intro _ s' hs'
    exact hs'.2.2.1.sessions
  · intro _ s' hs'
    exact hs'.1.evolved.sessions

theorem unloadModel_sessions {s : State} (h : Idle c s) (env : Env)
    (model : QString) :
    (unloadModel c env model s).2.sessions = s.sessions := by
  refine Exec.wp_final (P := fun s' : State => s'.sessions = s.sessions) ?_
  unfold unloadModel
  rw [Exec.wp_bind]
  refine Exec.wp_mono (refuseUsed_spec _ _ s) ?_ ?_
  case refine_2 =>
    intro _ s' hs'
    rw [hs']
  intro _ s' hs'
  subst hs'
  refine Exec.wp_mono (ModelManager.unload_spec h.sound model) ?_ ?_
  · intro _ t ht
    exact ht.1.evolved.sessions
  · intro _ t ht
    cases ht with
    | inl hsame => rw [hsame]
    | inr hlogged =>
        obtain ⟨id, entry, -, -, hlogged⟩ := hlogged
        rw [hlogged]

/-- Removing a model touches no session: it is refused while one
uses the model. -/
theorem removeModel_sessions {s : State} (h : Idle c s) (env : Env)
    (model : QString) :
    (removeModel c env model s).2.sessions = s.sessions := by
  refine Exec.wp_final (P := fun s' : State => s'.sessions = s.sessions) ?_
  unfold removeModel
  rw [Exec.wp_bind]
  refine Exec.wp_mono (refuseUsed_spec _ _ s) ?_ ?_
  case refine_2 =>
    intro _ s' hs'
    rw [hs']
  intro _ s' hs'
  subst hs'
  refine Exec.wp_mono (ModelManager.remove_spec h.sound model) ?_ ?_
  · intro _ t ht
    exact ht.2.2.1.sessions
  · intro _ t ht
    rw [ht]

theorem registerRuntime_sessions (runtime : Runtime) (s : State) :
    (registerRuntime runtime s).2.sessions = s.sessions := by
  refine Exec.wp_final (P := fun s' : State => s'.sessions = s.sessions) ?_
  unfold registerRuntime
  rw [Exec.wp_bind, Exec.wp_get, Exec.wp_bind, Exec.wp_ofExcept]
  refine ⟨fun runtimes _ => ?_, fun _ _ => rfl⟩
  exact Exec.wp_of_ok (ModelManager.setRuntimes_apply runtimes s) rfl

/-- Every task keeps every history shaped. Only sessions and turns write
messages, and a turn writes its two at once. -/
theorem serve_shaped (hc : c.Honest) {s : State} (hidle : Idle c s)
    (h : AllShaped s.sessions) (env : Env) (request : Request) :
    AllShaped (serve c env request s).2.sessions := by
  unfold serve
  cases request with
  | registerRuntime runtime =>
      exact shaped_bind (h.of_same (registerRuntime_sessions runtime s))
  | loadModel request =>
      exact shaped_bind (h.of_same (load_sessions hidle env request))
  | unloadModel model =>
      exact shaped_bind (h.of_same (unloadModel_sessions hidle env model))
  | removeModel model =>
      exact shaped_bind (h.of_same (removeModel_sessions hidle env model))
  | createSession model system =>
      exact shaped_bind (createSession_shaped h env model system)
  | resetSession id => exact shaped_bind (resetSession_shaped h id)
  | closeSession id => exact shaped_bind (closeSession_shaped h id)
  | chat requestId request callback =>
      obtain ⟨o, s', hrun, -, -, -, -, hatomic⟩ := generate_spec hc hidle.sound
        hidle.observed env requestId request none callback
      apply shaped_bind
      rw [hrun]
      exact hatomic.shaped h
  | complete requestId request callback =>
      obtain ⟨o, s', hrun, -, -, -, -, hatomic⟩ := generate_spec hc hidle.sound
        hidle.observed env requestId {} (some request) callback
      apply shaped_bind
      rw [hrun]
      exact h.of_same hatomic.sessions
  | converse requestId request callback =>
      obtain ⟨o, s', hrun, -, -, -, hsessions, -⟩ :=
        converse_spec hc hidle.sound
        hidle.observed env requestId request callback
      apply shaped_bind
      rw [hrun]
      exact h.of_same hsessions
  | embedText model text =>
      exact shaped_bind (h.of_same
        (embedText_spec hidle.sound hidle.observed env model text).sessions)
  | measureConversation request =>
      exact shaped_bind (h.of_same
        (measureConversation_spec hidle.sound hidle.observed env
          request).sessions)
  | maintain =>
      obtain ⟨s', hrun, hred⟩ := ModelManager.maintain_spec hidle.sound env
      apply shaped_bind
      rw [hrun]
      exact h.of_same hred.evolved.sessions

/-- Every run keeps every history shaped. -/
theorem serveAll_shaped (hc : c.Honest) (requests : List (Env × Request)) :
    ∀ {s : State}, Idle c s → AllShaped s.sessions →
      AllShaped (serveAll c s requests).sessions := by
  induction requests with
  | nil => intro s _ h; exact h
  | cons r rest ih =>
      intro s hidle h
      exact ih (serve_spec hc hidle r.1 r.2).idle
        (serve_shaped hc hidle h r.1 r.2)

/-- **The shape of histories.** In every run, every history is an optional
system message and whole turns, that of the temporary session of a
completion too; and what `prepare` drops of such a history is one whole turn
at a time, never the system message or the new prompt. -/
theorem run_histories_shaped (hc : c.Honest)
    (requests : List (Env × Request)) :
    let s := serveAll c {} requests
    AllShaped s.sessions
      ∧ (∀ (env : Env) (request : Request),
        AllShaped (serve c env request s).2.sessions)
      ∧ (∀ (env : Env) (requestId : QString) (request : ChatRequest)
        (completion : Option CompletionRequest) (t : Turn)
        (session : SessionSnapshot),
        openCompletion c env completion
            { state := s
              request
              result := { requestId, sessionId := request.sessionId } }
          = (.ok (), t) →
        t.state.sessions.get t.request.sessionId = .ok session →
        Shaped session.messages)
      ∧ ∀ (messages : List ChatMessage) (prompt : ChatMessage) (k : Nat),
        Shaped messages → prompt.role = .User →
        firstTurn (messages ++ [prompt]) + 2
          < ((dropTurn (firstTurn (messages ++ [prompt])))^[k]
            (messages ++ [prompt])).length →
        ∃ system user assistant rest, Preamble system
          ∧ user.role = .User ∧ assistant.role = .Assistant
          ∧ system = messages.take (firstTurn (messages ++ [prompt]))
          ∧ (dropTurn (firstTurn (messages ++ [prompt])))^[k]
              (messages ++ [prompt])
            = system ++ user :: assistant :: rest ++ [prompt]
          ∧ (dropTurn (firstTurn (messages ++ [prompt])))^[k + 1]
              (messages ++ [prompt])
            = system ++ rest ++ [prompt] := by
  intro s
  have hidle : Idle c s := serveAll_idle hc requests (idle_start c)
  have hshaped : AllShaped s.sessions :=
    serveAll_shaped hc requests (idle_start c) fun id session h => by simp at h
  refine ⟨hshaped, fun env request =>
    serve_shaped hc hidle hshaped env request,
    ?_, ?_⟩
  · intro env requestId request completion t session hopen hget
    have hspec := @openCompletion_shaped c env completion
      { state := s
        request
        result := { requestId, sessionId := request.sessionId } } hshaped
    unfold Exec.wp at hspec
    rw [hopen] at hspec
    exact hspec _ _ (sessions_get_ok hget)
  · intro messages prompt k h hprompt hroom
    exact dropTurn_drops_turn h hprompt k hroom

/-- A run with a chat leaves a session with one turn. -/
theorem chatted_histories_shaped :
    Sample.uuid 0 ∈ (serveAll Sample.config
      {} Sample.chatted).sessions.sessions
      ∧ AllShaped (serveAll Sample.config {} Sample.chatted).sessions :=
  ⟨by decide +kernel, (run_histories_shaped Sample.honest Sample.chatted).1⟩

end LocalLLM
