import LayeredConfig.Live.Timeline
/-!
# Actions

A rehearsal tries a configuration out: what clients and listeners do in it is given as data, where a
running program has them as code of its own. An action names the cells that it works on. A listener
has reactions: each has a condition on the value that is told and a number of times it may take
place, and what it does is put on record.

Scripts can do all that actions can, and more. What is proved of configurations is proved for
scripts, so it holds of rehearsals as well.
-/
namespace LayeredConfig.Live

/-- What is known to actions: the cells and the listeners under their names, and how often each
reaction has been called for. The rest of the surroundings is of type `ε`. -/
structure Desk (ε : Type) where
  cells : List (String × Nat) := []
  listeners : List (String × Nat × Nat) := []
  counts : List Nat := []
  rest : ε

/-- When a reaction takes place. -/
inductive Condition where
  | always
  | cleared
  | present
  | equals (value : Value)

/-- The condition fits what a listener is told. -/
def Condition.fits : Condition → Option Value → Bool
  | .always, _ => true
  | .cleared, value => value.isNone
  | .present, value => value.isSome
  | .equals wanted, some value => value == wanted
  | .equals _, none => false

mutual

/-- Something to be done. A handle is the name under which a listener can be taken back. -/
inductive Action (ε : Type) where
  | nothing
  | panic
  | update (cell : String) (value : Option Value)
  | get (cell : String)
  | look (cell : String)
  | listen (cell handle name : String) (atOnce : Bool) (reactions : List (Reaction ε))
  | deregister (handle : String)
  | close (cell : String)
  | derive (cell : String) (extract : Extractor)
  | tree
  | shut
  | start
  | alter (change : ε → ε)

/-- What a listener does when a condition fits, at most so many times. Every action has a label
under which its reply is put on record. -/
inductive Reaction (ε : Type) where
  | mk (condition : Condition) (actions : List (String × Action ε)) (most : Nat)

end

instance {ε : Type} : Inhabited (Action ε) := ⟨.nothing⟩

namespace Desk

variable {ε : Type}

def cell? (d : Desk ε) (name : String) : Option Nat :=
  d.cells.lookup name

/-- The desk with a name for a cell. -/
def nameCell (d : Desk ε) (name : String) (c : Nat) : Desk ε :=
  { d with cells := (name, c) :: d.cells.filter fun (other, _) => other != name }

/-- The desk with a handle for a listener of a cell. -/
def nameListener (d : Desk ε) (handle : String) (c listener : Nat) : Desk ε :=
  { d with
    listeners := (handle, c, listener) :: d.listeners.filter fun (other, _) => other != handle }

def addCounts (d : Desk ε) (n : Nat) : Desk ε :=
  { d with counts := d.counts ++ List.replicate n 0 }

/-- How often a reaction has been called for. -/
def count (d : Desk ε) (reaction : Nat) : Nat := d.counts.getD reaction 0

/-- The desk once a reaction has been called for again. -/
def countUp (d : Desk ε) (reaction : Nat) : Desk ε :=
  { d with counts := d.counts.modify reaction (· + 1) }

end Desk

/-- The value of a cell as a reply; it is an error that there is none. -/
def getReply : Option Value → Reply
  | some value => .outcome (.ok value)
  | none => .outcome (.error .noValue)

/-- That something was done as a reply, or why it was not. -/
def doneReply {α : Type} (r : Except ConfigError α) : Reply :=
  .outcome (r.map fun _ => .null)

/-- The script for the cell under a name; a name that was never given goes for a closed cell without
a value, for which the reply is known. -/
def onCell {ε : Type} (name : String) (absent : Reply) (next : Reply → Script (Desk ε))
    (script : Nat → Script (Desk ε)) : Script (Desk ε) :=
  .inspect fun desk => (desk.cell? name).elim (next absent) script

mutual

/-- The script of an action; `next` goes on with its reply. -/
def Action.script {ε : Type} (next : Reply → Script (Desk ε)) : Action ε → Script (Desk ε)
  | .nothing => next .nothing
  | .panic => .panic
  | .update name value =>
    onCell name (.outcome (.error (.closed "reloadable"))) next fun c =>
      .update c value fun r => next (.outcome (r.map .bool))
  | .get name => onCell name (getReply none) next fun c =>
    .look c fun value => next (getReply value)
  | .look name => onCell name (.present none) next fun c =>
    .look c fun value => next (.present value)
  | .listen name handle listener atOnce reactions => onCell name .nothing next fun c =>
    .inspect fun desk =>
      let first := desk.counts.length
      let react (value : Option Value) : Script (Desk ε) :=
        reactAll listener first value (.done .nothing) reactions
      let stored (id : Nat) : Script (Desk ε) :=
        .alter (·.nameListener handle c id) (next .nothing)
      .alter (·.addCounts reactions.length)
        (if atOnce then .registerAndCall c listener react stored
          else .register c listener react stored)
  | .deregister handle => .inspect fun desk =>
    match desk.listeners.lookup handle with
    | some (c, listener) => .deregister c listener (next .nothing)
    | none => next .nothing
  | .close name => onCell name .nothing next fun c => .close c (next .nothing)
  | .derive name extract => .derive extract fun r =>
    match r with
    | .ok c => .alter (·.nameCell name c) (next (doneReply r))
    | .error _ => next (doneReply r)
  | .tree => .tree fun tree => next (.present (tree.map Tree.toValue))
  | .shut => .shut (next .nothing)
  | .start => .start fun started => next (.flag started)
  | .alter change => .alter (fun desk => { desk with rest := change desk.rest }) (next .nothing)
termination_by structural action => action

/-- The script of reactions to what a listener is told; their counts begin at `first`. -/
def reactAll {ε : Type} (listener : String) (first : Nat) (value : Option Value)
    (next : Script (Desk ε)) : List (Reaction ε) → Script (Desk ε)
  | [] => next
  | r :: rest =>
    reactOne listener first value (reactAll listener (first + 1) value next rest) r
termination_by structural reactions => reactions

def reactOne {ε : Type} (listener : String) (index : Nat) (value : Option Value)
    (next : Script (Desk ε)) : Reaction ε → Script (Desk ε)
  | .mk condition actions most =>
    if condition.fits value then .inspect fun desk =>
      .alter (·.countUp index)
        (if desk.count index < most then actAll listener next actions else next)
    else next
termination_by structural reaction => reaction

/-- The script of labelled actions, each of which is put on record. -/
def actAll {ε : Type} (listener : String) (next : Script (Desk ε)) :
    List (String × Action ε) → Script (Desk ε)
  | [] => next
  | labelled :: rest => actOne listener (actAll listener next rest) labelled
termination_by structural actions => actions

def actOne {ε : Type} (listener : String) (next : Script (Desk ε)) :
    String × Action ε → Script (Desk ε)
  | (label, action) => action.script fun reply => .note listener label reply next
termination_by structural labelled => labelled

end

end LayeredConfig.Live
