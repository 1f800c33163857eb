import Media2.Foundation.Execution
import Media2.PacketReader

/-!
# The packet reader's player

Events move the reader through the states of its machine, and the actions of the
transitions open the source, start the thread that reads packets, or close the source. The
thread tests the state of the machine before each packet.

## Implementation notes

One label is one atomic step of one thread. The machine enters the target state before it
runs the action, ignores an event without a transition, and holds its lock until the action
is over. So while the source is opened or a `reset` closes it, events have to wait; the
thread's tests do not take the lock. A condition variable whose predicate is true does not
block. Events that open, reset or destroy the reader come from other threads than the
reading one, and a packet's subscribers may send `play` and `pause`.

`libav` answers in the labels. A stream object is numbered by the order in which the
objects were made.
-/

namespace Media2

/-- The three vectors. -/
def StreamTables.vectors (tables : StreamTables) : List (List Stream) :=
  [tables.streams, tables.audioStreams, tables.videoStreams]

/-- Every entry pushed behind those that are there. -/
def StreamTables.append (tables new : StreamTables) : StreamTables where
  streams := tables.streams ++ new.streams
  audioStreams := tables.audioStreams ++ new.audioStreams
  videoStreams := tables.videoStreams ++ new.videoStreams

/-- The objects of new tables, numbered from `made` on. -/
def StreamTables.number (made : Nat) (tables : StreamTables) : StreamTables :=
  let number (stream : Stream) : Stream := { stream with id := made + stream.id }
  ⟨tables.streams.map number, tables.audioStreams.map number, tables.videoStreams.map number⟩

namespace PacketReader

/-- The states of `PlayerState`; `X` is `failed`. -/
inductive PlayerState
  | ready
  | opening
  | opened
  | playing
  | paused
  | done
  | failed
  deriving DecidableEq

/-- The events of `PlayerState`; `open_success` and `open_error` are outcomes. -/
inductive PlayerEvent
  | «open»
  | outcome (e : Event)
  | play
  | pause
  | eof
  | reset
  deriving DecidableEq

inductive Action
  | sendOpen
  | sendOpenError
  | startProcessing
  | unpause
  | sendReset
  | sendEof
  deriving DecidableEq

/-- The transition table. -/
def transition : PlayerState → PlayerEvent → Option (PlayerState × Option Action)
  | .ready, .open => some (.opening, some .sendOpen)
  | .opening, .outcome .openSuccess => some (.opened, none)
  | .opening, .outcome (.openError _) => some (.failed, some .sendOpenError)
  | .opened, .play => some (.playing, some .startProcessing)
  | .opened, .reset => some (.done, some .sendReset)
  | .playing, .pause => some (.paused, none)
  | .playing, .reset => some (.done, some .sendReset)
  | .playing, .eof => some (.done, some .sendEof)
  | .paused, .play => some (.playing, some .unpause)
  | .paused, .pause => some (.playing, some .unpause)
  | .paused, .reset => some (.done, some .sendReset)
  | .done, .reset => some (.done, some .sendReset)
  | .done, .open => some (.opening, some .sendOpen)
  | _, _ => none

/-- Where a thread stands in `processPrivately`. -/
inductive Thread
  | start
  | test
  | testPaused
  | wait
  | read
  | eof
  | lock (packet : Packet)
  | forward (packet : Packet)
  | release
  | finished
  deriving DecidableEq

/-- Who called `close`. `setupStreams` has its outcome to report afterwards. -/
inductive Caller
  | reset
  | setupStreams (o : Opened)
  | destructor
  deriving DecidableEq

/-- What takes a thread several steps: `open`, or `close` before and after it has locked
`streamMutex`. -/
inductive Work
  | openFormat
  | setupStreams
  | lock (caller : Caller)
  | join (caller : Caller)
  deriving DecidableEq

/-- What ends the process: a thread object is assigned while it is joinable, a frame is read
with a null context, or a packet is on a stream that is not in the table. -/
inductive Death
  | assignedJoinable
  | nullContext
  | noSuchStream
  deriving DecidableEq

/-- What is recorded: the turns of the read loop with the state at their start, the events
that were not ignored, the packets read and the packets forwarded. -/
inductive Happening
  | turn (state : PlayerState)
  | event (byReader : Bool) (e : PlayerEvent) (source target : PlayerState)
  | read (packet : Packet)
  | forward (d : Delivery)
  deriving DecidableEq

end PacketReader

open PacketReader in
/-- A reader. Its thread object is joinable when there is a thread in `threads`. Objects
from the number `base` on are those of the last set-up. -/
structure PacketReader where
  filename : String
  state : PlayerState
  formatContext : Option FormatContext
  tables : StreamTables
  threads : List Thread
  work : Option Work
  constructed : Bool
  destroyed : Bool
  death : Option Death
  made : Nat
  base : Nat
  log : List Happening

namespace PacketReader

open Execution

/-- What a user sends. -/
inductive Request
  | play
  | pause
  | reset
  | «open»
  deriving DecidableEq

def Request.event : Request → PlayerEvent
  | .play => .play
  | .pause => .pause
  | .reset => .reset
  | .open => .open

/-- The next step: a call of a user, of a subscriber, of the thread that opens or closes the
source, or of the reading thread, with what libav answers. -/
inductive Label
  | sendEvent (e : Request)
  | callback (e : Request)
  | process
  | join
  | destroy
  | openInput (answer : Option FormatContext)
  | setUp (libav : Nat → Libav) (found : Bool)
  | lockStreams
  | joined
  | reader (answer : Option Packet)

/-- Nobody holds the lock of the machine. -/
def unlocked (s : PacketReader) : Bool :=
  match s.work with
  | none | some (.lock .destructor) | some (.join .destructor) => true
  | _ => false

/-- Users have the reader: it is constructed and its destructor was not called. -/
def usable (s : PacketReader) : Bool :=
  s.constructed && (s.work != some (.lock .destructor) && s.work != some (.join .destructor))

/-- `close` holds `streamMutex`. -/
def streamsLocked (s : PacketReader) : Bool :=
  match s.work with
  | some (.join _) => true
  | _ => false

/-- No thread is left to wait for. -/
def allFinished (s : PacketReader) : Bool := s.threads.all fun t => t = .finished

/-- The assignment in `process`. -/
def startThread (s : PacketReader) : PacketReader :=
  { s with
    threads := .start :: s.threads
    death := if s.threads = [] then s.death else some .assignedJoinable }

/-- An action. `process` starts the thread here, as the machine is not in `opened` any more. -/
def act (s : PacketReader) : Option Action → PacketReader
  | some .sendOpen => { s with work := some .openFormat }
  | some .startProcessing => s.startThread
  | some .sendReset => { s with work := some (.lock .reset) }
  -- the signals `error` and `eof`, and `notify_all` on a condition nobody waits for
  | some .sendOpenError | some .sendEof | some .unpause | none => s

/-- The machine enters a state. -/
def enter (s : PacketReader) (byReader : Bool) (e : PlayerEvent) (target : PlayerState) :
    PacketReader :=
  { s with state := target, log := s.log ++ [Happening.event byReader e s.state target] }

/-- `state.process_event`. -/
def send (s : PacketReader) (byReader : Bool) (e : PlayerEvent) : PacketReader :=
  match transition s.state e with
  | none => s
  | some (target, action) => (s.enter byReader e target).act action

/-- The constructor up to the opening of the source. -/
def create (filename : String) : PacketReader :=
  send { filename := filename
         state := .ready
         formatContext := none
         tables := StreamTables.empty
         threads := []
         work := none
         constructed := false
         destroyed := false
         death := none
         made := 0
         base := 0
         log := [] } false .open

/-- `process`. -/
def process (s : PacketReader) : Option PacketReader :=
  if s.state = .opened then
    if s.unlocked then some (s.send false .play) else none
  else some s.startThread

/-- The end of `open`, when the source could not be opened or has no streams. -/
def openFailed (s : PacketReader) : PacketReader :=
  { s.send false (.outcome (.openError "")) with work := none, constructed := true }

/-- `openFormat`. On failure libav has freed the context, also one that was there before. -/
def openFormat (s : PacketReader) : Option FormatContext → PacketReader
  | some formatContext => { s with formatContext := some formatContext, work := some .setupStreams }
  | none => ({ s with formatContext := none }.send false
      (.outcome (.openError ("Error opening " ++ s.filename)))).openFailed

/-- The end of `setupStreams` and of `open`. -/
def report (s : PacketReader) (o : Opened) : PacketReader :=
  let s := o.events.foldl (fun s e => s.send false (.outcome e)) s
  if o.foundStreams then { s with work := none, constructed := true } else s.openFailed

/-- What `setupStreams` makes of the source, apart from what is in the vectors. -/
def outcome (s : PacketReader) (libav : Nat → Libav) (found : Bool)
    (formatContext : FormatContext) : Opened :=
  PacketReader.setupStreams libav s.filename found formatContext StreamTables.empty

/-- The reader after the loop of `setupStreams`, which pushes behind what is there. -/
def filled (s : PacketReader) (formatContext : FormatContext) (o : Opened) : PacketReader :=
  { s with
    tables := s.tables.append (o.tables.number s.made)
    base := s.made
    made := s.made + formatContext.streams.length }

/-- `setupStreams`, which fills the vectors or closes the source. -/
def setUp (s : PacketReader) (libav : Nat → Libav) (found : Bool) (formatContext : FormatContext) :
    PacketReader :=
  let o := s.outcome libav found formatContext
  if found then (s.filled formatContext o).report o
  else { s with work := some (.lock (.setupStreams o)) }

/-- The rest of `close` after the join. -/
def emptied (s : PacketReader) : PacketReader :=
  { s with
    threads := []
    formatContext := none
    tables := StreamTables.empty
    work := none }

/-- The end of `close`, and what its caller does next. -/
def closed (s : PacketReader) : Caller → PacketReader
  | .reset => s.emptied
  | .setupStreams o => s.emptied.report o
  | .destructor => { s.emptied with destroyed := true }

/-- The next step of `processPrivately`. -/
def processPrivately (s : PacketReader) (t : Thread) (answer : Option Packet) :
    Option PacketReader :=
  let goto (t : Thread) : PacketReader := { s with threads := [t] }
  match t with
  | .start => if s.unlocked then some ((goto .test).send true .play) else none
  | .test =>
      some (if s.state = .done then goto .finished
        else { goto .testPaused with log := s.log ++ [Happening.turn s.state] })
  | .testPaused => some (goto (if s.state = .paused then .wait else .read))
  -- the predicate is true, so `wait` returns at once
  | .wait => some (goto .read)
  | .read =>
      if s.formatContext.isSome then
        match answer with
        | none => some (goto .eof)
        | some packet => some { goto (.lock packet) with log := s.log ++ [Happening.read packet] }
      else some { s with death := some .nullContext }
  | .eof => if s.unlocked then some ((goto .test).send true .eof) else none
  | .lock packet => if s.streamsLocked then none else some (goto (.forward packet))
  | .forward packet =>
      match forwardRead s.tables.streams packet with
      | .error _ => some { s with death := some .noSuchStream }
      | .ok none => some (goto .release)
      | .ok (some d) => some { goto .release with log := s.log ++ [Happening.forward d] }
  | .release => some (goto .test)
  | .finished => none

/-- The reading thread holds `streamMutex`. -/
def Thread.holdsStreams : Thread → Bool
  | .forward _ | .release => true
  | _ => false

/-- The process lives and the reader is not destroyed. -/
def Alive (s : PacketReader) : Prop := s.death = none ∧ s.destroyed = false

instance (s : PacketReader) : Decidable s.Alive := instDecidableAnd

/-- One step of a reader that is there. -/
def step (s : PacketReader) (l : Label) : Option PacketReader :=
  if s.Alive then
    match l with
    | .sendEvent e =>
        if s.usable && s.unlocked then some (s.send false e.event) else none
    | .callback e =>
        if s.threads = [.release] ∧ s.unlocked ∧ (e = .play ∨ e = .pause) then
          some (s.send false e.event)
        else none
    | .process => if s.usable then s.process else none
    | .join => if s.usable && s.allFinished then some { s with threads := [] } else none
    | .destroy =>
        if s.usable && s.unlocked then some { s with work := some (.lock .destructor) } else none
    | .openInput answer =>
        if s.work = some .openFormat then some (s.openFormat answer) else none
    | .setUp libav found =>
        match s.work, s.formatContext with
        | some .setupStreams, some formatContext => some (s.setUp libav found formatContext)
        | _, _ => none
    | .lockStreams =>
        match s.work with
        | some (.lock caller) =>
            if s.threads.any Thread.holdsStreams then none
            else some { s with work := some (.join caller) }
        | _ => none
    | .joined =>
        match s.work with
        | some (.join caller) => if s.allFinished then some (s.closed caller) else none
        | _ => none
    | .reader answer =>
        match s.threads with
        | [t] => s.processPrivately t answer
        | _ => none
  else none

end PacketReader

end Media2
