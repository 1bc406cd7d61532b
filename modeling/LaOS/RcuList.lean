import LaOS.TransitionSystem

/-!
# Traversing a list while it changes

A model of the list operations for RCU in `kernel/list.h`, one store or load at a time.
Writers exclude each other.
-/

namespace LaOS.RcuList

open Function

variable {Node : Type} [DecidableEq Node]

structure Links (Node : Type) where
  next : Node → Node
  prev : Node → Node

def Links.setNext (links : Links Node) (node target : Node) : Links Node :=
  { links with next := update links.next node target }

def Links.setPrev (links : Links Node) (node target : Node) : Links Node :=
  { links with prev := update links.prev node target }

/-- The operation that is under way: `__list_add_rcu` after the given number of
stores, or `list_del_rcu` after its first store. -/
inductive Writer (Node : Type)
  | idle
  | adding (newn prev next : Node) (stores : Nat)
  | deleting (entry : Node)

/-- The traversal before its first load, at a node, or at the head. -/
inductive Reader (Node : Type)
  | waiting
  | visiting (pos : Node)
  | finished

/-- The list, its writer and one traversal, with the nodes it has visited and those deleted
since its first load. -/
structure State (Node : Type) where
  links : Links Node
  writer : Writer Node
  reader : Reader Node
  visited : List Node
  deleted : List Node

inductive Action (Node : Type)
  | listAddRcu (newn : Node)
  | listAddTailRcu (newn : Node)
  | listDelRcu (entry : Node)
  | store
  | reuse (node next prev : Node)
  | load
  | pause

/-- The stores of `__list_add_rcu` in turn. -/
def addStore (newn prev next : Node) (links : Links Node) : Nat → Links Node
  | 0 => links.setNext newn next
  | 1 => links.setPrev newn prev
  | 2 => links.setPrev next newn
  | _ => links.setNext prev newn

/-- `__list_add_rcu` begins. -/
def listAdd (newn prev next : Node) (s : State Node) : Option (State Node) :=
  match s.writer with
  | .idle => some { s with
      links := addStore newn prev next s.links 0
      writer := .adding newn prev next 1 }
  | _ => none

/-- `list_del_rcu` begins. -/
def listDelRcu (entry : Node) (s : State Node) : Option (State Node) :=
  match s.writer with
  | .idle => some { s with
      links := s.links.setNext (s.links.prev entry) (s.links.next entry)
      writer := .deleting entry
      deleted := entry :: s.deleted }
  | _ => none

/-- The next store of the operation that is under way. -/
def store (s : State Node) : Option (State Node) :=
  match s.writer with
  | .idle => none
  | .adding newn prev next stores => some { s with
      links := addStore newn prev next s.links stores
      writer := if stores < 3 then .adding newn prev next (stores + 1) else .idle }
  | .deleting entry => some { s with
      links := s.links.setPrev (s.links.next entry) (s.links.prev entry)
      writer := .idle }

/-- The condition of the loop, after the load of the next position. -/
def arrive (head pos : Node) (s : State Node) : State Node :=
  if pos = head then { s with reader := .finished }
  else { s with reader := .visiting pos, visited := s.visited ++ [pos] }

/-- A load of `list_for_each_rcu`. -/
def load (head : Node) (s : State Node) : Option (State Node) :=
  match s.reader with
  | .waiting => some (arrive head (s.links.next head) { s with visited := [], deleted := [] })
  | .visiting pos => some (arrive head (s.links.next pos) s)
  | .finished => none

def step (head : Node) (s : State Node) : Action Node → Option (State Node)
  | .listAddRcu newn => listAdd newn head (s.links.next head) s
  | .listAddTailRcu newn => listAdd newn (s.links.prev head) head s
  | .listDelRcu entry => listDelRcu entry s
  | .store => store s
  | .reuse node next prev => some { s with
      links := (s.links.setNext node next).setPrev node prev }
  | .load => load head s
  | .pause => some s

def system (head : Node) : TransitionSystem (State Node) (Action Node) where
  initial s := s.links.next head = head ∧ s.links.prev head = head ∧
    s.writer = .idle ∧ s.reader = .waiting
  step := step head

inductive Linked (head : Node) (links : Links Node) : Node → Prop
  | first (notEmpty : links.next head ≠ head) : Linked head links (links.next head)
  | next {node : Node} (linked : Linked head links node) (notLast : links.next node ≠ head) :
      Linked head links (links.next node)

/-- A node that the traversal may still hold: it was deleted since the first load. -/
def Held (s : State Node) (node : Node) : Prop :=
  (∃ pos, s.reader = .visiting pos) ∧ node ∈ s.deleted

def Writer.entry : Writer Node → Option Node
  | .idle => none
  | .adding newn _ _ _ => some newn
  | .deleting entry => some entry

/-- The contract of writers: an added node is not in the list, a deleted one is, and a node that
the traversal may hold is not used again. -/
def Contract (head : Node) (s : State Node) : Action Node → Prop
  | .listAddRcu newn | .listAddTailRcu newn =>
    newn ≠ head ∧ ¬ Linked head s.links newn ∧ ¬ Held s newn
  | .listDelRcu entry => Linked head s.links entry
  | .reuse node _ _ =>
    node ≠ head ∧ ¬ Linked head s.links node ∧ ¬ Held s node ∧
      s.writer.entry ≠ some node
  | _ => True

def Action.isInsertion : Action Node → Bool
  | .listAddRcu _ | .listAddTailRcu _ => true
  | _ => false

end LaOS.RcuList
