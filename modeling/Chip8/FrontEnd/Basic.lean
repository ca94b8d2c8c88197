import Chip8.FrontEnd.Device
import Chip8.Session.Basic

namespace Chip8

namespace FrontEnd

inductive Phase where
  | receiving
  | drawing (f : Screen)
  | scanning
  | sending (keys : Keypad)
  | deciding
  | failing (reason : String)
  | joining (failure : Option String)
  | waiting (failure : Option String)
  | done (failure : Option String)
deriving DecidableEq, Repr

inductive Event where
  | session (e : Session.Event)
  | drew (f : Screen)
  | drawFailed (reason : String)
  | scanned (keys : Keypad)
  | scanFailed (reason : String)
deriving DecidableEq, Repr

inductive Action where
  | pump
  | giveUp
  | execute
  | timeout
deriving DecidableEq, Repr

end FrontEnd

structure FrontEnd (δ ι : Type) where
  session : Session
  display : δ
  input : ι
  limit : Option Nat
  phase : FrontEnd.Phase := .receiving
  lastKeys : Keypad := .released
  shown : Nat := 0
  halting : Bool := false

namespace FrontEnd

variable {δ ι : Type}

def limitReached (e : FrontEnd δ ι) : Bool := e.limit.any fun n => n ≤ e.shown

theorem limitReached_iff {e : FrontEnd δ ι} : e.limitReached = true ↔ ∃ n, e.limit = some n ∧ n ≤ e.shown := by
  rw [limitReached, Option.any_eq_true]
  simp only [decide_eq_true_eq]

def tell (e : FrontEnd δ ι) (c : Command) (phase : Phase) : List Event × FrontEnd δ ι :=
  ((e.session.send c).1.map .session, { e with session := (e.session.send c).2, phase })

def pump [Display δ] [Input ι] (e : FrontEnd δ ι) : Option (List Event × FrontEnd δ ι) :=
  match e.phase with
  | .receiving =>
    match e.session.receive? with
    | some (.frame f, session) =>
      some ([.session (.received (.frame f))], { e with session, phase := .drawing f })
    | some (.halted fault, session) =>
      some ([.session (.received (.halted fault))], { e with session, phase := .joining none })
    | none => if e.session.isClosed then some ([], { e with phase := .joining none }) else none
  | .drawing f =>
    match Display.draw e.display f with
    | .error reason => some ([.drawFailed reason], { e with phase := .failing reason })
    | .ok display => some ([.drew f], { e with display, shown := e.shown + 1, phase := .scanning })
  | .scanning =>
    match Input.scan e.input with
    | .error reason => some ([.scanFailed reason], { e with phase := .failing reason })
    | .ok (keys, input) =>
      some ([.scanned keys],
        { e with input, phase := if keys = e.lastKeys then .deciding else .sending keys })
  | .sending keys => some ({ e with lastKeys := keys }.tell (.keypad keys) .deciding)
  | .deciding =>
    if !e.halting && (Input.wantsQuit e.input || e.limitReached) then
      some ({ e with halting := true }.tell .halt .receiving)
    else some ([], { e with phase := .receiving })
  | .failing reason => some (e.tell .halt (.joining (some reason)))
  | .joining failure => some ([], { e with session := e.session.hangUp, phase := .waiting failure })
  | .waiting failure =>
    if e.session.hasStopped then some ([], { e with phase := .done failure }) else none
  | .done _ => none

def canGiveUp (e : FrontEnd δ ι) : Bool :=
  e.phase == .receiving && e.session.outbox.isEmpty && !e.session.hasStopped

def inSession (e : FrontEnd δ ι) (a : Session.Action) : Option (List Event × FrontEnd δ ι) :=
  (e.session.act a).map fun (events, session) => (events.map .session, { e with session })

def act [Display δ] [Input ι] (e : FrontEnd δ ι) : Action → Option (List Event × FrontEnd δ ι)
  | .pump => e.pump
  | .giveUp => if e.canGiveUp then some ([], { e with phase := .scanning }) else none
  | .execute => e.inSession .execute
  | .timeout => e.inSession .timeout

def perform [Display δ] [Input ι] (e : FrontEnd δ ι) :
    List Action → Option (List Event × FrontEnd δ ι)
  | [] => some ([], e)
  | a :: rest =>
    (e.act a).bind fun (events, e') => (e'.perform rest).map fun (more, e'') => (events ++ more, e'')

inductive Failure where
  | device (reason : String)
deriving DecidableEq, Repr

def Failure.text : Failure → String
  | .device reason => "front end I/O failed: " ++ reason

def result? (e : FrontEnd δ ι) : Option (Except Failure Session.Summary) :=
  match e.phase with
  | .done none => some (.ok e.session.summary)
  | .done (some reason) => some (.error (.device reason))
  | _ => none

variable [Display δ] [Input ι]

def next? (e : FrontEnd δ ι) : Option (Action × List Event × FrontEnd δ ι) :=
  match e.inSession .execute with
  | some r => some (.execute, r)
  | none =>
    match e.pump with
    | some r => some (.pump, r)
    | none => (e.inSession .timeout).map fun r => (.timeout, r)

def run : Nat → FrontEnd δ ι → FrontEnd δ ι
  | 0, e => e
  | turns + 1, e =>
    match e.next? with
    | none => e
    | some (_, _, e') => run turns e'

theorem act_of_next? {e : FrontEnd δ ι} {a : Action} {r : List Event × FrontEnd δ ι}
    (h : e.next? = some (a, r)) : e.act a = some r := by
  unfold next? at h
  split at h
  · next r₁ he =>
      obtain ⟨rfl, rfl⟩ : Action.execute = a ∧ r₁ = r := by simpa using h
      exact he
  · split at h
    · next r₁ he =>
        obtain ⟨rfl, rfl⟩ : Action.pump = a ∧ r₁ = r := by simpa using h
        exact he
    · obtain ⟨r₁, he, heq⟩ := Option.map_eq_some_iff.1 h
      obtain ⟨rfl, rfl⟩ : Action.timeout = a ∧ r₁ = r := by simpa using heq
      exact he

end FrontEnd

end Chip8
