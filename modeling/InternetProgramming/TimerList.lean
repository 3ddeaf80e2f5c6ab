/-
# The timer list: `lst_timer.cpp`

The server of `main.cpp` (directory 12 of the notes) closes clients that have been idle for too
long.  It keeps one timer for each of them in a doubly linked list that is meant to be sorted by
expiry, so that a tick only looks at the front.

The operations are translated statement by statement, pointers included: an address is `some x`,
`nullptr` is `none`, and following a pointer that is null or was freed is a `Fault`.  A `while`
loop over a list whose links form a circle never ends; here a loop is given `fuel`, and running
out of it is the fault `endless`.

What the operations do to a list that is one is the subject of `TimerListSpec`.

Not modelled: `cb_func`, which is the same function in every timer, and `printf("timer tick")`.
-/
import InternetProgramming.Interaction.Links
import Mathlib.Algebra.Order.Ring.Int

namespace InternetProgramming

open Interaction

/-! ## 1. The program -/

/-- Where a node is. -/
abbrev Addr := ℕ

/-- What ends a run in a way that C++ does not define. -/
inductive Fault where
  /-- `nullptr` was followed. -/
  | null
  /-- A pointer to a node that was deleted was followed, or deleted again. -/
  | freed
  /-- A loop is still running when its fuel is used up. -/
  | endless
  /-- An array was accessed outside its bounds. -/
  | bounds
deriving DecidableEq

/-- `class util_timer` without its links: when it expires, and the descriptor of its client
(`user_data` is `&users[fd]`). -/
structure Timer where
  expire : ℤ
  userData : ℤ
deriving DecidableEq

/-- `class sort_timer_lst`, with the nodes that are allocated. -/
structure TimerList where
  heap : Store Addr Timer := fun _ => none
  head : Option Addr := none
  tail : Option Addr := none

namespace TimerList

/-- The node that a pointer leads to. -/
def deref (s : TimerList) : Option Addr → Except Fault (Node Addr Timer)
  | none => .error .null
  | some x => match s.heap x with
    | some n => .ok n
    | none => .error .freed

/-- `p->next = q;` -/
def setNext (s : TimerList) (p q : Option Addr) : Except Fault TimerList :=
  match p with
  | none => .error .null
  | some x => match s.heap x with
    | some _ => .ok { s with heap := s.heap.setNext x q }
    | none => .error .freed

/-- `p->prev = q;` -/
def setPrev (s : TimerList) (p q : Option Addr) : Except Fault TimerList :=
  match p with
  | none => .error .null
  | some x => match s.heap x with
    | some _ => .ok { s with heap := s.heap.setPrev x q }
    | none => .error .freed

/-- `new util_timer` at the address `x`, with its fields set. -/
def alloc (s : TimerList) (x : Addr) (timer : Timer) : TimerList :=
  { s with heap := s.heap.put x ⟨none, none, timer⟩ }

/-- `timer->expire = expire;` -/
def setExpire (s : TimerList) (timer : Option Addr) (expire : ℤ) : Except Fault TimerList :=
  match timer with
  | none => .error .null
  | some x => match s.heap x with
    | some n => .ok { s with heap := s.heap.put x { n with data := { n.data with expire } } }
    | none => .error .freed

/-- `delete p;` -/
def delete (s : TimerList) (p : Option Addr) : Except Fault TimerList :=
  match p with
  | none => .ok s
  | some x => match s.heap x with
    | some _ => .ok { s with heap := s.heap.free x }
    | none => .error .freed

/-- The end of `add_timer(timer, lst_head)` behind the last node. -/
def appendTimer (s : TimerList) (timer : Option Addr) : Except Fault TimerList := do
  let s ← s.setNext s.tail timer
  let s ← s.setPrev timer s.tail
  pure { s with tail := timer }

/-- The end of `add_timer(timer, lst_head)` behind the loop. -/
def insertBefore (s : TimerList) (timer temp : Option Addr) : Except Fault TimerList := do
  let s ← s.setNext timer temp
  let n ← s.deref temp
  let s ← s.setPrev timer n.prev
  let n ← s.deref temp
  let s ← s.setNext n.prev timer
  s.setPrev temp timer

/-- `add_timer(timer, lst_head)`: from `temp` on. -/
def addTimerFrom (timer : Option Addr) :
    ℕ → Option Addr → TimerList → Except Fault TimerList
  | 0, _, _ => .error .endless
  | fuel + 1, temp, s => do
    let t ← s.deref timer
    let n ← s.deref temp
    if t.data.expire > n.data.expire then
      if n.next ≠ none then
        addTimerFrom timer fuel n.next s
      else
        s.appendTimer timer
    else
      s.insertBefore timer temp

/-- `add_timer(timer)`. -/
def addTimer (fuel : ℕ) (timer : Option Addr) (s : TimerList) : Except Fault TimerList :=
  if timer = none then
    pure s
  else if s.head = none then
    pure { s with head := timer, tail := timer }
  else do
    let t ← s.deref timer
    let h ← s.deref s.head
    if t.data.expire < h.data.expire then do
      let s := { s with head := timer }
      let s ← s.setNext timer s.tail
      s.setPrev s.tail timer
    else
      addTimerFrom timer fuel s.head s

/-- `adjust_timer(timer)`, when the timer has to be moved. -/
def moveTimer (fuel : ℕ) (timer : Option Addr) (s : TimerList) : Except Fault TimerList :=
  if timer = s.head then do
    let h ← s.deref s.head
    let s := { s with head := h.next }
    let s ← s.setPrev s.head none
    let s ← s.setNext timer none
    addTimerFrom timer fuel s.head s
  else do
    let t ← s.deref timer
    let s ← s.setNext t.prev t.next
    let t ← s.deref timer
    let s ← s.setPrev t.next t.prev
    let t ← s.deref timer
    addTimerFrom timer fuel t.next s

/-- `adjust_timer(timer)`. -/
def adjustTimer (fuel : ℕ) (timer : Option Addr) (s : TimerList) : Except Fault TimerList :=
  if timer = none then
    pure s
  else do
    let t ← s.deref timer
    if timer = s.tail then
      pure s
    else do
      let temp ← s.deref t.next
      if t.data.expire < temp.data.expire then
        pure s
      else
        s.moveTimer fuel timer

/-- `del_timer(timer)`. -/
def delTimer (timer : Option Addr) (s : TimerList) : Except Fault TimerList :=
  if timer = none then
    pure s
  else if timer = s.head ∧ timer = s.tail then do
    let s ← s.delete timer
    pure { s with head := none, tail := none }
  else if timer = s.head then do
    let h ← s.deref s.head
    let s := { s with head := h.next }
    let s ← s.setPrev s.head none
    s.delete timer
  else if timer = s.tail then do
    let t ← s.deref s.tail
    let s := { s with tail := t.prev }
    let s ← s.setNext s.tail none
    s.delete timer
  else do
    let t ← s.deref timer
    let s ← s.setNext t.prev t.next
    let t ← s.deref timer
    let s ← s.setPrev t.next t.prev
    s.delete timer

/-- `tick()` behind a call of the callback: the first node is taken off and deleted. -/
def popTimer (s : TimerList) (temp : Option Addr) : Except Fault TimerList := do
  let n ← s.deref temp
  let s := { s with head := n.next }
  let s ← if s.head ≠ none then s.setPrev s.head none else pure s
  s.delete temp

/-- `tick()` at the time `cur`, as the loop of it: the clients the callback was called for, in
order, and the list that is left. -/
def tick (cur : ℤ) : ℕ → TimerList → List ℤ × Except Fault TimerList
  | 0, _ => ([], .error .endless)
  | fuel + 1, s =>
    if s.head = none then
      ([], .ok s)
    else match s.deref s.head with
      | .error f => ([], .error f)
      | .ok n =>
        if cur < n.data.expire then
          ([], .ok s)
        else match s.popTimer s.head with
          | .error f => ([n.data.userData], .error f)
          | .ok s => (n.data.userData :: (tick cur fuel s).1, (tick cur fuel s).2)

/-- `~sort_timer_lst()`, as the loop of it.  Each round deletes the node at `head` and then reads
`temp->next`, where `temp` is that node. -/
def destroy : ℕ → TimerList → Except Fault TimerList
  | 0, _ => .error .endless
  | fuel + 1, s =>
    if s.head = none then
      pure s
    else do
      let temp := s.head
      let s ← s.delete s.head
      let n ← s.deref temp
      destroy fuel { s with head := n.next }

end TimerList

end InternetProgramming
