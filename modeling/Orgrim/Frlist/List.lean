import Orgrim.Theory.Chain
import Orgrim.Theory.Machine

/-!
# Linked lists

`list.c`: doubly linked lists with a header.  The memory is kept by the fields: `pre`, `next` and
`data` of the nodes, and `size`, `head` and `tail` of the headers.  What `malloc` answers is an
argument, see `nodeCreate`; a null pointer is `none`.  A function has no result where it accesses
a node that is not allocated, and where it does not end.

The keys of the nodes are left out, and so are the functions that a caller passes to free what
a node points to.
-/

namespace Frlist

open Links

/-- The nodes that are allocated, and the fields of nodes and headers. -/
structure Lists (ι α : Type) where
  live : Finset α
  pre : α → Option α
  next : α → Option α
  data : α → Option ℕ
  size : ι → BitVec 32
  head : ι → Option α
  tail : ι → Option α

namespace Lists

variable {ι α : Type} [DecidableEq ι] [DecidableEq α]

/-! ### Fields -/

def storePre (s : Lists ι α) (x : α) (p : Option α) : Option (Lists ι α) :=
  if x ∈ s.live then some { s with pre := Function.update s.pre x p } else none

def storeNext (s : Lists ι α) (x : α) (p : Option α) : Option (Lists ι α) :=
  if x ∈ s.live then some { s with next := Function.update s.next x p } else none

def loadPre (s : Lists ι α) (x : α) : Option (Option α) :=
  if x ∈ s.live then some (s.pre x) else none

def loadNext (s : Lists ι α) (x : α) : Option (Option α) :=
  if x ∈ s.live then some (s.next x) else none

def loadData (s : Lists ι α) (x : α) : Option (Option ℕ) :=
  if x ∈ s.live then some (s.data x) else none

def setHead (s : Lists ι α) (l : ι) (p : Option α) : Lists ι α :=
  { s with head := Function.update s.head l p }

def setTail (s : Lists ι α) (l : ι) (p : Option α) : Lists ι α :=
  { s with tail := Function.update s.tail l p }

def setSize (s : Lists ι α) (l : ι) (n : BitVec 32) : Lists ι α :=
  { s with size := Function.update s.size l n }

def free (s : Lists ι α) (x : α) : Option (Lists ι α) :=
  if x ∈ s.live then some { s with live := s.live.erase x } else none

/-! ### The functions -/

/-- `frlist_header_init` -/
def headerInit (s : Lists ι α) (l : ι) : Lists ι α :=
  ((s.setSize l 0).setHead l none).setTail l none

/-- `frlist_node_create`; `malloc` answers with a node that is not allocated, or fails. -/
def nodeCreate (s : Lists ι α) (answer : Option α) (data : Option ℕ) : Option α × Lists ι α :=
  match answer with
  | none => (none, s)
  | some x =>
      if x ∈ s.live then (none, s)
      else
        (some x, { s with
          live := insert x s.live
          pre := Function.update s.pre x none
          next := Function.update s.next x none
          data := Function.update s.data x data })

/-- `frlist_add_tail` -/
def addTail (s : Lists ι α) : Option ι → Option α → Option (Lists ι α)
  | some l, some x => do
      let s ← s.storeNext x none
      match s.head l with
      | some _ => do
          let s ← s.storePre x (s.tail l)
          let last ← s.tail l
          let s ← s.storeNext last (some x)
          let s := s.setTail l (some x)
          some (s.setSize l (s.size l + 1))
      | none => do
          let s ← s.storePre x none
          let s := (s.setTail l (some x)).setHead l (some x)
          some (s.setSize l (s.size l + 1))
  | _, _ => some s

/-- `frlist_add_header` -/
def addHeader (s : Lists ι α) : Option ι → Option α → Option (Lists ι α)
  | some l, some x =>
      match s.head l with
      | some first => do
          let s ← s.storePre first (some x)
          let s ← s.storePre x none
          let s ← s.storeNext x (s.head l)
          let s := s.setHead l (some x)
          some (s.setSize l (s.size l + 1))
      | none => do
          let s ← s.storePre x none
          let s ← s.storeNext x none
          let s := (s.setTail l (some x)).setHead l (some x)
          some (s.setSize l (s.size l + 1))
  | _, _ => some s

/-- `frlist_merge_header_top` -/
def mergeHeaderTop (s : Lists ι α) : Option ι → Option ι → Option (Lists ι α)
  | some dst, some src =>
      if s.size src = 0 then some s
      else if s.size dst = 0 then
        let s := s.setHead dst (s.head src)
        let s := s.setTail dst (s.tail src)
        let s := s.setSize dst (s.size src)
        some (s.headerInit src)
      else do
        let last ← s.tail src
        let s ← s.storeNext last (s.head dst)
        let s := s.setHead dst (s.head src)
        let s := s.setSize dst (s.size dst + s.size src)
        some (s.headerInit src)
  | _, _ => some s

/-- The loop of `frlist_add_sort`, with `p_node_tmp` and `p_node_pre`.  Among `n` allocated
nodes it ends after `n` rounds or never. -/
def sortPre (s : Lists ι α) (compare : α → ℤ) : ℕ → Option α → Option α → Option (Option α)
  | _, none, pre => some pre
  | 0, some _, _ => none
  | n + 1, some tmp, pre => do
      let next ← s.loadNext tmp
      if compare tmp ≤ 0 then some pre else sortPre s compare n next (some tmp)

/-- `frlist_add_sort`; `compare x y` is what the caller's function returns. -/
def addSort (s : Lists ι α) : Option ι → Option α → Option (α → α → ℤ) → Option (Lists ι α)
  | some l, some x, none => s.addTail (some l) (some x)
  | some l, some x, some compare =>
      if s.size l < 1 then s.addTail (some l) (some x)
      else do
        let pre ← s.sortPre (compare x) s.live.card (s.head l) none
        match pre with
        | none => do
            let tmp := s.head l
            let s := s.setHead l (some x)
            let s ← s.storePre x none
            let s ← s.storeNext x tmp
            let first ← tmp
            let s ← s.storePre first (some x)
            some (s.setSize l (s.size l + 1))
        | some pre => do
            let tmp ← s.loadNext pre
            let s ← s.storeNext pre (some x)
            let s ← s.storePre x (some pre)
            let s ← s.storeNext x tmp
            match tmp with
            | some after => do
                let s ← s.storePre after (some x)
                some (s.setSize l (s.size l + 1))
            | none => some (s.setSize l (s.size l + 1))
  | _, _, _ => some s

/-- The loop of `frlist_shallow_copy`, with `p_st_node_do`.  Besides the nodes there are it can
only meet those it creates. -/
def copyNodes (dst : ι) : ℕ → List (Option α) → Option α → Lists ι α → Option (Lists ι α)
  | _, _, none, s => some s
  | 0, _, some _, _ => none
  | n + 1, answers, some x, s => do
      let tmp ← s.loadNext x
      match ← s.loadData x with
      | none => copyNodes dst n answers tmp s
      | some data =>
          match s.nodeCreate (answers.headD none) (some data) with
          | (none, s) => copyNodes dst n answers.tail tmp s
          | (some new, s) => do
              let s ← s.addTail (some dst) (some new)
              copyNodes dst n answers.tail tmp s

/-- `frlist_shallow_copy` -/
def shallowCopy (s : Lists ι α) (answers : List (Option α)) :
    Option ι → Option ι → Option (Lists ι α)
  | some dst, some src => copyNodes dst (s.live.card + answers.length) answers (s.head src) s
  | _, _ => some s

/-- `frlist_remove_head` -/
def removeHead (s : Lists ι α) : Option ι → Option (Option α × Lists ι α)
  | some l =>
      match s.head l with
      | some x => do
          let s := s.setHead l (← s.loadNext x)
          let s ← match s.head l with
            | none => some (s.setTail l none)
            | some first => s.storePre first none
          let s ← s.storeNext x none
          some (some x, s.setSize l (s.size l - 1))
      | none => some (none, s)
  | none => some (none, s)

/-- The first loop of `frlist_remove_from_idx`, with `p_node`. -/
def seek (l : ι) : ℕ → Option α → Lists ι α → Option (Option α × Lists ι α)
  | 0, p, s => some (p, s)
  | _ + 1, none, s => some (none, s)
  | n + 1, some x, s => do
      let s := s.setTail l (some x)
      seek l n (← s.loadNext x) s

/-- The second loop of `frlist_remove_from_idx`, with `p_node`. -/
def freeNodes (l : ι) : ℕ → Option α → Lists ι α → Option (Lists ι α)
  | _, none, s => some s
  | 0, some _, _ => none
  | n + 1, some x, s => do
      let p ← s.loadNext x
      let s ← s.free x
      freeNodes l n p (s.setSize l (s.size l - 1))

/-- `i_free_idx`: `i_idx`, or zero if that is negative. -/
def freeIdx (idx : BitVec 32) : ℕ := if idx.toInt < 0 then 0 else idx.toNat

/-- `frlist_remove_from_idx`; `size` is unsigned, and so is the comparison. -/
def removeFromIdx (s : Lists ι α) (idx : BitVec 32) : Option ι → Option (Lists ι α)
  | some l =>
      if s.size l = 0 ∨ s.size l < idx + 1 then some s
      else do
        let (p, s) ← seek l (freeIdx idx) (s.head l) s
        match p with
        | none => some s
        | some x => do
            let last ← s.tail l
            let s ← s.storeNext last none
            let s := if freeIdx idx = 0 then (s.setHead l none).setTail l none else s
            freeNodes l s.live.card (some x) s
  | none => some s

/-- What `frlist_node_free` and `frlist_node_apart` do to the list `l` of the node `x`. -/
def unlink (s : Lists ι α) (l : ι) (x : α) : Option (Lists ι α) := do
  let pre ← s.loadPre x
  let next ← s.loadNext x
  let s ←
    if s.head l = some x then
      let s := s.setHead l next
      some (if s.tail l = some x then s.setTail l none else s)
    else if s.tail l = some x then do
      let before ← pre
      let s ← s.storeNext before none
      some (s.setTail l pre)
    else do
      let before ← pre
      let s ← s.storeNext before next
      let after ← next
      s.storePre after pre
  some (s.setSize l (s.size l - 1))

/-- `frlist_node_free` -/
def nodeFree (s : Lists ι α) (l : Option ι) (x : Option α) (delList : ℤ) :
    Option (Lists ι α) :=
  match l, x with
  | _, none => some s
  | none, some x => if delList = 0 then some s else s.free x
  | some l, some x =>
      if delList = 0 then
        if s.head l = none then some s
        else do
          let s ← s.unlink l x
          s.free x
      else s.free x

/-- `frlist_node_apart` -/
def nodeApart (s : Lists ι α) : Option ι → Option α → Option (Lists ι α)
  | some l, some x => if s.head l = none then some s else s.unlink l x
  | _, _ => some s

/-! ### Runs -/

/-- The nodes that are visited when one follows `next` from `head`. -/
def members (s : Lists ι α) (l : ι) : List α := follow s.next s.live.card (s.head l)

/-- A node that can be added to a list. -/
def Fresh (s : Lists ι α) (x : α) : Prop := x ∈ s.live ∧ ∀ l, x ∉ s.members l

instance [Fintype ι] (s : Lists ι α) (x : α) : Decidable (s.Fresh x) :=
  inferInstanceAs (Decidable (_ ∧ _))

/-- Lists that have been initialised, in any memory. -/
def start (live : Finset α) (pre next : α → Option α) (data : α → Option ℕ) : Lists ι α where
  live := live
  pre := pre
  next := next
  data := data
  size _ := 0
  head _ := none
  tail _ := none

end Lists

/-- A call of one of the functions, with its arguments. -/
inductive Call (ι α : Type) where
  | nodeCreate (answer : Option α) (data : Option ℕ)
  | addTail (l : ι) (x : α)
  | addHeader (l : ι) (x : α)
  | addSort (l : ι) (x : α) (compare : Option (α → α → ℤ))
  | mergeHeaderTop (dst src : ι)
  | shallowCopy (dst src : ι) (answers : List (Option α))
  | removeHead (l : ι)
  | removeFromIdx (l : ι) (idx : BitVec 32)
  | nodeFree (l : ι) (x : α) (delList : ℤ)
  | nodeApart (l : ι) (x : α)

variable {ι α : Type} [DecidableEq ι] [DecidableEq α]

/-- The functions that change lists. -/
def frlist : Machine (Lists ι α) (Call ι α) where
  step s
    | .nodeCreate answer data => some (s.nodeCreate answer data).2
    | .addTail l x => s.addTail (some l) (some x)
    | .addHeader l x => s.addHeader (some l) (some x)
    | .addSort l x compare => s.addSort (some l) (some x) compare
    | .mergeHeaderTop dst src => s.mergeHeaderTop (some dst) (some src)
    | .shallowCopy dst src answers => s.shallowCopy answers (some dst) (some src)
    | .removeHead l => (s.removeHead (some l)).map Prod.snd
    | .removeFromIdx l idx => s.removeFromIdx idx (some l)
    | .nodeFree l x delList => s.nodeFree (some l) (some x) delList
    | .nodeApart l x => s.nodeApart (some l) (some x)

/-- A node that is added is in no list, a node that is taken out is in the list, and a node that
is freed only is in no list. -/
def Lists.Permits (s : Lists ι α) : Call ι α → Prop
  | .addTail _ x => s.Fresh x
  | .addHeader _ x => s.Fresh x
  | .addSort _ x _ => s.Fresh x
  | .nodeFree l x delList => if delList = 0 then x ∈ s.members l else s.Fresh x
  | .nodeApart l x => x ∈ s.members l
  | _ => True

instance [Fintype ι] (s : Lists ι α) : (c : Call ι α) → Decidable (s.Permits c)
  | .addTail _ _ => inferInstanceAs (Decidable (s.Fresh _))
  | .addHeader _ _ => inferInstanceAs (Decidable (s.Fresh _))
  | .addSort _ _ _ => inferInstanceAs (Decidable (s.Fresh _))
  | .nodeFree l x delList =>
      inferInstanceAs (Decidable (if delList = 0 then x ∈ s.members l else s.Fresh x))
  | .nodeApart _ _ => inferInstanceAs (Decidable (_ ∈ _))
  | .nodeCreate _ _ => .isTrue trivial
  | .mergeHeaderTop _ _ => .isTrue trivial
  | .shallowCopy _ _ _ => .isTrue trivial
  | .removeHead _ => .isTrue trivial
  | .removeFromIdx _ _ => .isTrue trivial

end Frlist
