/-
One file of a pull on its way over the network (`service/ModelRegistry.cpp`,
`download`).

# Events

The reply, the timer and the callbacks run in one event loop, in an order
that the network decides; `Action` says which event comes next, and with
what answers. The loop is left some time after `finished`, and what follows
it is `conclude`.

# What is not given

The status and the bytes of a reply are those of Qt. It follows a redirect
when it is told to, eight times at most. A write that fails may have
written a part.

The fields `requested`, `bodies` and `reports` have no counterpart in the
source: the URLs that were asked for, what was read with which status, and
the calls of the callback.
-/
import LocalLLM.Models.ModelCatalog
import LocalLLM.Models.ModelRegistry

namespace LocalLLM

/-- The arguments of `download`. -/
structure DownloadJob where
  lib : ModelsDirectory.Library
  url : Url
  file : ModelFile
  /-- Whether there is a callback. -/
  progress : Bool

structure Download where
  requested : List Url
  /-- `HttpStatusCodeAttribute`. -/
  status : Int := 0
  /-- What `readAll` would give. -/
  buffer : List UInt8 := []
  output : List UInt8 := []
  /-- What `hash` has been given. -/
  hashed : List UInt8 := []
  received : Int := 0
  reported : Int := -1
  failure : Option Exn := none
  /-- `finished` has been emitted, with or without an error. -/
  finished : Option Bool := none
  /-- How `download` has ended. -/
  result : Option (Except Exn Unit) := none
  bodies : List (Int × List UInt8) := []
  reports : List Int := []

namespace Download

open ModelInspection (demandThat)

/-- What `drain` meets. -/
structure Drain where
  cancelled : Bool := false
  /-- A write that fails: the bytes it has written, and its error. -/
  torn : Option (Nat × QString) := none

/-- What comes after the loop. -/
structure Conclusion where
  drain : Drain := {}
  cancelled : Bool := false
  errorString : QString := []
  /-- The error of a flush that fails. -/
  unflushed : Option QString := none
  callback : Except Exn Unit := .ok ()

inductive Action
  | respond (status : Int)
  | arrive (bytes : List UInt8)
  | readyRead (drain : Drain)
  | redirected (target : Url)
  | timeout (cancelled : Bool) (callback : Except Exn Unit)
  | finish (error : Bool)
  | conclude (c : Conclusion)

/-- An exception is caught, and the reply is aborted. -/
def fail (e : Exn) (s : Download) : Download := { s with failure := some e }

def isRedirect (status : Int) : Bool := 300 ≤ status && status < 400

/-- `drain`. -/
def drain (j : DownloadJob) (d : Drain) (s : Download) : Download :=
  if s.failure.isSome = true then s
  else if d.cancelled = true then s.fail cancelledError
  else
    let data := s.buffer
    let read :=
      { s with buffer := [], bodies := s.bodies ++ [(s.status, data)] }
    if isRedirect s.status = true then read
    else if j.file.size - s.received < data.length then
      read.fail (err .IntegrityFailure "Download exceeds pinned file size")
    else match d.torn with
      | some (written, message) =>
          { read with output := s.output ++ data.take written }.fail
            (.error ⟨.StorageFailure, message⟩)
      | none => { read with
          output := s.output ++ data
          hashed := s.hashed ++ data
          received := s.received + data.length }

/-- The handler of `redirected`. -/
def follow (j : DownloadJob) (target : Url) (s : Download) : Download :=
  if allowedUrl target = false
      ∨ (j.url.scheme = qs "https" ∧ target.scheme ≠ qs "https") then
    s.fail (err .InvalidManifest
      "Download redirect violates registry transport policy")
  else { s with requested := s.requested ++ [target] }

/-- The handler of the timer. -/
def poll (j : DownloadJob) (cancelled : Bool) (callback : Except Exn Unit)
    (s : Download) : Download :=
  if cancelled = true then s.fail cancelledError
  else if j.progress = true ∧ s.received ≠ s.reported then
    let called := { s with reports := s.reports ++ [s.received] }
    match callback with
    | .ok () => { called with reported := s.received }
    | .error e => called.fail e
  else s

/-- The checks that follow the loop. -/
def check (j : DownloadJob) (c : Conclusion) (s : Download) :
    Except Exn Unit :=
  match s.failure with
  | some e => .error e
  | none => do
      if c.cancelled = true then .error cancelledError
      else do
        demandThat (s.finished ≠ some true ∧ s.status = 200) .RuntimeFailure
          (qs "Model download failed: " ++ c.errorString)
        require (s.received = j.file.size
          ∧ j.lib.sha256Hex s.hashed = j.file.sha256)
          .IntegrityFailure
            "Downloaded size or SHA-256 does not match the registry"
        match c.unflushed with
        | some message => .error (.error ⟨.StorageFailure, message⟩)
        | none => .ok ()

/-- What follows the loop. -/
def conclude (j : DownloadJob) (c : Conclusion) (s : Download) : Download :=
  let s := s.drain j c.drain
  match s.check j c with
  | .error e => { s with result := some (.error e) }
  | .ok () =>
      if j.progress = true then
        { s with
          reports := s.reports ++ [s.received], result := some c.callback }
      else { s with result := some (.ok ()) }

/-- The loop begins. -/
def start (j : DownloadJob) : Download := { requested := [j.url] }

def step (j : DownloadJob) (s : Download) (a : Action) : Option Download :=
  if s.result.isSome = true then none
  else match a with
    | .respond status => some { s with status }
    | .arrive bytes => some { s with buffer := s.buffer ++ bytes }
    | .readyRead d => some (s.drain j d)
    | .redirected target =>
        if s.requested.length ≤ 8 then some (s.follow j target) else none
    | .timeout cancelled callback => some (s.poll j cancelled callback)
    | .finish error => some { s with finished := some error }
    | .conclude c =>
        if s.finished.isSome = true then some (s.conclude j c) else none

end Download

end LocalLLM
