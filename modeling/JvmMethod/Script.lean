import JvmMethod.Block
import JvmMethod.Terminal

/-!
# Scripts

Code is produced by pushing elements into a *builder*.  Builders stack: over a
terminal there may be blocks, and transforms that replace what is pushed into
them.  What a producer may do with a builder is the same on every stack, and is
written down as a `Script`: a tree of requests, each with a way to go on for
every answer.  Layers of the stack then are functions from scripts to scripts,
which answer some requests and pass on the rest, and `Script.run` answers what
reaches the terminal.

Scripts also read and change an ambient state `ω`, which is how producers and
transforms that know of each other share what they know.

`Script.bind_assoc` and the two unit laws make scripts a lawful monad.
-/

namespace JvmMethod

/-- A layer of a stack of builders, as it is seen from above. -/
inductive Layer where
  | block (block : Block)
  /-- The output of one transform that is the input of another. -/
  | transforming
  /-- The input of a transform. -/
  | chained
  deriving DecidableEq

/-- What may be asked of a builder. -/
inductive Request where
  | push (element : Element)
  | freshLabel
  | allocate (kind : Kind)
  /-- The next slot that the builder hands out. -/
  | topLocal
  /-- The terminal of the stack, to look at. -/
  | terminal
  /-- The layers of the stack over the terminal, the builder's own first. -/
  | layers
  /-- Push into the terminal, past all layers. -/
  | terminalPush (element : Element)
  /-- Allocate on the terminal, past all layers. -/
  | terminalAllocate (kind : Kind)

/-- What a request is answered with. -/
@[reducible] def Request.Answer : Request → Type
  | .push _ => Except Fault Unit
  | .freshLabel => Label
  | .allocate _ => Except Fault Slot
  | .topLocal => Slot
  | .terminal => Terminal
  | .layers => List Layer
  | .terminalPush _ => Except Fault Unit
  | .terminalAllocate _ => Except Fault Slot

/-- What a terminal answers, and what becomes of it. -/
def Terminal.answer (terminal : Terminal) :
    (request : Request) → request.Answer × Terminal
  | .push element => terminal.push element
  | .freshLabel => terminal.freshLabel
  | .allocate kind => terminal.allocate kind
  | .topLocal => (terminal.topLocal, terminal)
  | .terminal => (terminal, terminal)
  | .layers => ([], terminal)
  | .terminalPush element => terminal.push element
  | .terminalAllocate kind => terminal.allocate kind

/-- What is done with a builder, and an ambient state, until there is a
result. -/
inductive Script (ω α : Type) where
  | done (result : α)
  | ask (request : Request) (next : request.Answer → Script ω α)
  | read (next : ω → Script ω α)
  | change (f : ω → ω) (next : Script ω α)

namespace Script

variable {ω α β γ : Type}

/-- Goes on with the result of a script. -/
def bind (script : Script ω α) (f : α → Script ω β) : Script ω β :=
  match script with
  | .done result => f result
  | .ask request next => .ask request fun answer => (next answer).bind f
  | .read next => .read fun state => (next state).bind f
  | .change g next => .change g (next.bind f)

instance : Monad (Script ω) where
  pure := .done
  bind := bind

theorem bind_done (script : Script ω α) : script.bind .done = script := by
  induction script with
  | done => rfl
  | ask _ _ ih => simp [bind, ih]
  | read _ ih => simp [bind, ih]
  | change _ _ ih => simp [bind, ih]

theorem bind_assoc (script : Script ω α) (f : α → Script ω β)
    (g : β → Script ω γ) :
    (script.bind f).bind g = script.bind fun result => (f result).bind g := by
  induction script with
  | done => rfl
  | ask _ _ ih => simp [bind, ih]
  | read _ ih => simp [bind, ih]
  | change _ _ ih => simp [bind, ih]

instance : LawfulMonad (Script ω) := LawfulMonad.mk' _
  (fun script => bind_done script)
  (fun _ _ => rfl)
  (fun script f g => bind_assoc script f g)

/-- Makes a single request. -/
def send (request : Request) : Script ω request.Answer :=
  .ask request .done

/-- Answers all requests on a terminal. -/
def run : Script ω α → Terminal → ω → α × Terminal × ω
  | .done result, terminal, state => (result, terminal, state)
  | .ask request next, terminal, state =>
      match terminal.answer request with
      | (answer, terminal) => (next answer).run terminal state
  | .read next, terminal, state => (next state).run terminal state
  | .change f next, terminal, state => next.run terminal (f state)

end Script

/-- A part of a larger state: how to look at it, and how to change it. -/
structure Focus (ω σ : Type) where
  get : ω → σ
  modify : (σ → σ) → ω → ω

/-- Lets a script that knows a part of the state work on the whole. -/
def Script.zoom {ω σ α : Type} (focus : Focus ω σ) :
    Script σ α → Script ω α
  | .done result => .done result
  | .ask request next => .ask request fun answer => (next answer).zoom focus
  | .read next => .read fun state => (next (focus.get state)).zoom focus
  | .change f next => .change (focus.modify f) (next.zoom focus)

/-- A script that may fail.  What it did until then is done. -/
abbrev Build (ω α : Type) := ExceptT Fault (Script ω) α

namespace Build

variable {ω α : Type}

/-- Pushes an element. -/
def push (element : Element) : Build ω Unit :=
  ExceptT.mk (.send (.push element))

/-- Gets a label that is new in the method body. -/
def freshLabel : Build ω Label :=
  ExceptT.lift (.send .freshLabel)

/-- Gets a local slot for a value of a kind. -/
def allocate (kind : Kind) : Build ω Slot :=
  ExceptT.mk (.send (.allocate kind))

/-- The next slot that would be handed out. -/
def topLocal : Build ω Slot :=
  ExceptT.lift (.send .topLocal)

/-- The terminal as it is now. -/
def terminal : Build ω Terminal :=
  ExceptT.lift (.send .terminal)

/-- The layers over the terminal. -/
def layers : Build ω (List Layer) :=
  ExceptT.lift (.send .layers)

/-- Pushes an element into the terminal itself. -/
def terminalPush (element : Element) : Build ω Unit :=
  ExceptT.mk (.send (.terminalPush element))

/-- Gets a local slot from the terminal itself. -/
def terminalAllocate (kind : Kind) : Build ω Slot :=
  ExceptT.mk (.send (.terminalAllocate kind))

/-- The ambient state. -/
def read : Build ω ω :=
  ExceptT.lift (.read .done)

/-- Changes the ambient state. -/
def change (f : ω → ω) : Build ω Unit :=
  ExceptT.lift (.change f (.done ()))

/-- Lets a script that knows a part of the state work on the whole. -/
def zoom {σ : Type} (focus : Focus ω σ) (build : Build σ α) : Build ω α :=
  ExceptT.mk (build.run.zoom focus)

end Build

end JvmMethod
