import SketchPrep.Edit.Basic

/-!
A draft of a text collects edits that do not clash: no two deletions overlap, and no insertion falls
strictly inside a deletion. Insertions at one offset are rendered in the order they were recorded,
before a deletion that starts there.
-/

namespace SketchPrep

/-- The source with its size in bytes; `edits` are in the order they were recorded. -/
structure Draft where
  source : Text
  size : Nat
  edits : List Edit
  size_eq : size = source.size := by rfl
  deriving DecidableEq, Repr

namespace Draft

inductive Request where
  | insert (offset : Nat) (text : Text)
  | delete (range : Span)
  deriving DecidableEq, Repr

/-- Why an edit cannot be recorded. -/
inductive Fault where
  | insertPastEnd (offset : Nat)
  | insertInsideDelete (offset : Nat) (deleted : Span)
  | badDelete (range : Span)
  | deleteOverlap (range : Span) (deleted : Span)
  | deleteCoversInsert (range : Span) (offset : Nat)
  deriving DecidableEq, Repr

def Fault.message : Fault → String
  | .insertPastEnd o => s!"insert at {o} past end of input"
  | .insertInsideDelete o d => s!"insert at {o} falls inside deleted range {d.lo}..{d.hi}"
  | .badDelete r => s!"bad delete range {r.lo}..{r.hi}"
  | .deleteOverlap r d => s!"delete {r.lo}..{r.hi} overlaps delete {d.lo}..{d.hi}"
  | .deleteCoversInsert r o => s!"delete {r.lo}..{r.hi} covers insert at {o}"

def ofSource (source : Text) : Draft where
  source
  size := source.size
  edits := []

def inserts (draft : Draft) : List (Nat × Text) := draft.edits.filterMap Edit.inserted?

def deletes (draft : Draft) : List Span := draft.edits.filterMap Edit.deleted?

/-- The range that starts last. -/
def lastStarting? : List Span → Option Span
  | [] => none
  | d :: ds =>
    match lastStarting? ds with
    | some e => some (if d.lo ≤ e.lo then e else d)
    | none => some d

/-- Of the deletions that start before `offset` the last one. -/
def deleteBefore? (draft : Draft) (offset : Nat) : Option Span :=
  lastStarting? (draft.deletes.filter (·.lo < offset))

/-- The deletion that an insertion at `offset` would fall into. Only the last one that starts before
it is looked at. -/
def deleteAround? (draft : Draft) (offset : Nat) : Option Span :=
  (draft.deleteBefore? offset).filter (offset < ·.hi)

def isDeleted (draft : Draft) (offset : Nat) : Bool :=
  (draft.deleteAround? offset).isSome || draft.deletes.any (·.lo = offset)

def insertFault? (draft : Draft) (offset : Nat) : Option Fault :=
  if draft.size < offset then some (.insertPastEnd offset)
  else (draft.deleteAround? offset).map (.insertInsideDelete offset)

def deleteFault? (draft : Draft) (range : Span) : Option Fault :=
  if range.hi ≤ range.lo || draft.size < range.hi then some (.badDelete range)
  else
    match draft.deleteBefore? range.hi with
    | some d => if range.lo < d.hi then some (.deleteOverlap range d) else covered?
    | none => covered?
where
  covered? : Option Fault :=
    let offsets := (draft.inserts.map Prod.fst).filter fun o => range.lo < o && o < range.hi
    offsets.min?.map (.deleteCoversInsert range)

def record (draft : Draft) : Request → Except Fault Draft
  | .insert offset text =>
    match draft.insertFault? offset with
    | some fault => .error fault
    | none => .ok { draft with edits := draft.edits ++ [.insert offset text] }
  | .delete range =>
    match draft.deleteFault? range with
    | some fault => .error fault
    | none => .ok { draft with edits := draft.edits ++ [.delete range.lo (range.hi - range.lo)] }

/-- Record requests up to the first that is faulty; what was recorded before it stays. -/
def recordAll (draft : Draft) : List Request → Draft × Option Fault
  | [] => (draft, none)
  | q :: qs =>
    match draft.record q with
    | .ok next => recordAll next qs
    | .error fault => (draft, some fault)

/-! ### Requests -/

def insertBefore (offset : Nat) (text : Text) : List Request := [.insert offset text]

/-- Insert behind the byte at `offset`. -/
def insertAfter (offset : Nat) (text : Text) : List Request := [.insert (offset + 1) text]

/-- Delete from `first` through `last`. -/
def delete (first last : Nat) : List Request := [.delete ⟨first, last + 1⟩]

def insertBeforeSpan (span : Span) (text : Text) : List Request := insertBefore span.lo text

def insertAfterSpan (span : Span) (text : Text) : List Request := insertBefore span.hi text

/-- An empty span deletes nothing. -/
def deleteSpan (span : Span) : List Request :=
  if span.lo = span.hi then [] else [.delete span]

def replaceSpan (span : Span) (text : Text) : List Request :=
  insertBeforeSpan span text ++ deleteSpan span

/-! ### Rendering -/

/-- The offsets at which an edit begins, ascending and each once. -/
def points (draft : Draft) : List Nat := (draft.edits.map Edit.offset).mergeSort.eraseDups

/-- The texts inserted at `point`, one after the other. -/
def insertedAt (draft : Draft) (point : Nat) : Text :=
  (draft.inserts.filter (·.1 = point)).flatMap Prod.snd

/-- Where rendering goes on after `point`: behind the deletion that starts there, if any. -/
def resumeAt (draft : Draft) (point : Nat) : Nat :=
  ((draft.deletes.find? (·.lo = point)).map Span.hi).getD point

/-- Render `rest`, which begins at byte `pos` of the source. -/
def render (draft : Draft) (pos : Nat) (rest : Text) : List Nat → Option Text
  | [] => some rest
  | point :: points => do
    let (kept, rest) ← if pos ≤ point then rest.split? (point - pos) else none
    let next := draft.resumeAt point
    let others ← render draft next (← rest.drop? (next - point)) points
    return kept ++ draft.insertedAt point ++ others

/-- The source with every edit made; undefined if an edit cuts a character. -/
def text? (draft : Draft) : Option Text := draft.render 0 draft.source draft.points

end Draft

end SketchPrep
