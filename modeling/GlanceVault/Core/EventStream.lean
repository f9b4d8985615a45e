import Mathlib.Data.List.TakeWhile
/-!
# Event streams

A reader of `text/event-stream`, character by character, as the HTML standard
interprets one: lines end with CR, LF or both; a line is a comment, a field or
blank; a blank line dispatches what the fields since the last one have set. What
follows the last blank line is not dispatched.

* `feed_append`: a stream may be cut anywhere.
* `feed_message`, `feed_comment`: what a message and a comment are read as.
-/
namespace GlanceVault.Core.EventStream

/-- A dispatched event; `message` is the type of one that names none. -/
structure Message where
  event : List Char
  data : List Char
  lastEventId : List Char
  deriving DecidableEq

/-- `line`: the characters since the last line end; `afterCr`: that was a CR, so
a line feed belongs to it; the others are the buffers of the fields. -/
structure Reader where
  line : List Char
  afterCr : Bool
  event : List Char
  data : List Char
  lastEventId : List Char
  deriving DecidableEq

def Reader.start : Reader := ⟨[], false, [], [], []⟩

/-- The field of a line. `retry` sets how soon the client reconnects, and no
event sees it. -/
def Reader.field (r : Reader) (name value : List Char) : Reader :=
  if name = ['e', 'v', 'e', 'n', 't'] then { r with event := value }
  else if name = ['d', 'a', 't', 'a'] then { r with data := r.data ++ value ++ ['\n'] }
  else if name = ['i', 'd'] then if '\x00' ∈ value then r else { r with lastEventId := value }
  else r

/-- The value of a field: what follows the colon, less one space. -/
def valueOf : List Char → List Char
  | ':' :: ' ' :: cs => cs
  | ':' :: cs => cs
  | cs => cs

/-- A blank line. Without data nothing is dispatched. -/
def Reader.dispatch (r : Reader) : Reader × List Message :=
  let cleared := { r with event := [], data := [] }
  if r.data = [] then (cleared, [])
  else
    (cleared,
      [⟨if r.event = [] then ['m', 'e', 's', 's', 'a', 'g', 'e'] else r.event,
        r.data.dropLast, r.lastEventId⟩])

/-- A complete line. -/
def Reader.read (r : Reader) (cs : List Char) : Reader × List Message :=
  match cs with
  | [] => r.dispatch
  | ':' :: _ => (r, [])
  | cs => (r.field (cs.takeWhile (· ≠ ':')) (valueOf (cs.dropWhile (· ≠ ':'))), [])

def Reader.next (r : Reader) (c : Char) : Reader × List Message :=
  if c = '\n' then
    if r.afterCr then ({ r with afterCr := false }, []) else { r with line := [] }.read r.line
  else if c = '\r' then { r with line := [], afterCr := true }.read r.line
  else ({ r with line := r.line ++ [c], afterCr := false }, [])

def feed : Reader → List Char → Reader × List Message
  | r, [] => (r, [])
  | r, c :: cs =>
    let (r', ms) := r.next c
    let (r'', ns) := feed r' cs
    (r'', ms ++ ns)

/-- What is read from a stream that comes in pieces. -/
def messages (pieces : List (List Char)) : List Message := (feed .start pieces.flatten).2

theorem feed_cons (r : Reader) (c : Char) (cs : List Char) :
    feed r (c :: cs) = ((feed (r.next c).1 cs).1, (r.next c).2 ++ (feed (r.next c).1 cs).2) := rfl

/-- **A stream may be cut anywhere.** -/
theorem feed_append : ∀ (cs ds : List Char) (r : Reader),
    feed r (cs ++ ds) = ((feed (feed r cs).1 ds).1, (feed r cs).2 ++ (feed (feed r cs).1 ds).2)
  | [], _, _ => rfl
  | c :: cs, ds, r => by
    rw [List.cons_append, feed_cons, feed_cons, feed_append cs ds, List.append_assoc]

/-- Characters that end no line. -/
def Flat (cs : List Char) : Prop := ∀ c ∈ cs, c ≠ '\n' ∧ c ≠ '\r'

instance : DecidablePred Flat :=
  fun cs => List.decidableBAll (fun c : Char => c ≠ '\n' ∧ c ≠ '\r') cs

theorem flat_nil : Flat [] := by simp [Flat]

theorem Flat.append {cs ds : List Char} (h : Flat cs) (h' : Flat ds) :
    Flat (cs ++ ds) := fun c hc =>
  (List.mem_append.1 hc).elim (h c) (h' c)

section Lines
variable {r : Reader}

theorem feed_flat {cs : List Char} (h : Flat cs) (hr : r.afterCr = false) :
    feed r cs = ({ r with line := r.line ++ cs }, []) := by
  induction cs generalizing r with
  | nil => simp [feed]
  | cons c cs ih =>
    obtain ⟨hn, hc⟩ := h c List.mem_cons_self
    have hnext : r.next c = ({ r with line := r.line ++ [c] }, []) := by
      unfold Reader.next
      rw [if_neg hn, if_neg hc, ← hr]
    have hrest := ih (r := { r with line := r.line ++ [c] })
      (fun d hd => h d (List.mem_cons_of_mem _ hd)) hr
    simp [feed_cons, hnext, hrest]

/-- A line is read as a whole. -/
theorem feed_line {cs : List Char} (h : Flat cs) (hl : r.line = []) (hr : r.afterCr = false) :
    feed r (cs ++ ['\n']) = r.read cs := by
  have hend : ({ r with line := r.line ++ cs } : Reader).next '\n' = r.read cs := by
    unfold Reader.next
    rw [if_pos rfl, if_neg (by rw [hr]; decide), hl]
    show Reader.read { r with line := [] } cs = _
    rw [← hl]
  rw [feed_append, feed_flat h hr]
  simp [feed, hend]

end Lines

/-- Between two messages. -/
def Reader.Idle (r : Reader) : Prop := r = { Reader.start with lastEventId := r.lastEventId }

theorem idle_start : Reader.start.Idle := rfl

/-- A message, as a server writes it. -/
def message (event data : List Char) : List Char :=
  ['e', 'v', 'e', 'n', 't', ':', ' '] ++ event ++ ['\n'] ++ ['d', 'a', 't', 'a', ':', ' '] ++
    data ++ ['\n', '\n']

/-- A comment, as a server writes it. -/
def comment (text : List Char) : List Char := ':' :: text ++ ['\n', '\n']

/-- **A message is read as it was written.** -/
theorem feed_message {r : Reader} (hr : r.Idle) {event data : List Char} (he : Flat event)
    (hne : event ≠ []) (hd : Flat data) :
    feed r (message event data) = (r, [⟨event, data, r.lastEventId⟩]) := by
  obtain ⟨i, rfl⟩ : ∃ i, r = { Reader.start with lastEventId := i } := ⟨_, hr⟩
  let x : List Char := ['e', 'v', 'e', 'n', 't', ':', ' ']
  let y : List Char := ['d', 'a', 't', 'a', ':', ' ']
  have hsplit : message event data =
      ((x ++ event) ++ ['\n']) ++ (((y ++ data) ++ ['\n']) ++ ([] ++ ['\n'])) := by
    simp [message, x, y]
  have hevent : ∀ r : Reader, r.read (x ++ event) = ({ r with event := event }, []) := fun r => by
    simp [Reader.read, Reader.field, valueOf, x]
  have hdata : ∀ r : Reader, r.read (y ++ data) =
      ({ r with data := r.data ++ data ++ ['\n'] }, []) := fun r => by
    simp [Reader.read, Reader.field, valueOf, y]
  have hx : Flat x := by simp [Flat, x]
  have hy : Flat y := by simp [Flat, y]
  rw [hsplit, feed_append, feed_line (hx.append he) rfl rfl, hevent, feed_append,
    feed_line (hy.append hd) rfl rfl, hdata,
    feed_line flat_nil rfl rfl]
  simp [Reader.read, Reader.dispatch, Reader.start, hne]

/-- **A comment is not read.** -/
theorem feed_comment {r : Reader} (hr : r.Idle) {text : List Char} (h : Flat text) :
    feed r (comment text) = (r, []) := by
  obtain ⟨i, rfl⟩ : ∃ i, r = { Reader.start with lastEventId := i } := ⟨_, hr⟩
  have hsplit : comment text = (([':'] ++ text) ++ ['\n']) ++ ([] ++ ['\n']) := by simp [comment]
  have hline : ∀ r : Reader, r.read ([':'] ++ text) = (r, []) := fun _ => rfl
  have hcolon : Flat [':'] := by simp [Flat]
  rw [hsplit, feed_append, feed_line (hcolon.append h) rfl rfl, hline, feed_line flat_nil rfl rfl]
  simp [Reader.read, Reader.dispatch, Reader.start]

end GlanceVault.Core.EventStream
