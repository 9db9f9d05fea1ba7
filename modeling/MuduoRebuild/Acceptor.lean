import MuduoRebuild.Foundations.Run
import MuduoRebuild.Poller.EpollPoller

/-!
# `Acceptor`: the listening socket

An `Acceptor` owns a listening socket, a channel for it, and a reserve descriptor `idleFd_`. When
the socket is readable, `handleRead` accepts a connection and passes its descriptor to the
callback. Errors of `accept4` that pass are to be ignored, and `EMFILE` is to be met by giving up
the reserve descriptor for a moment.

`World` is an acceptor with its loop and the open descriptors of the process; its log has the
descriptors that were accepted, passed on and closed. What the system calls return is not
determined: the inputs of a run say it. Every failing `accept4` comes to `LOG_FATAL` first, and
without a callback it is the listening socket that is closed, so a run goes as it should exactly
as long as every `accept4` succeeds and a callback is installed. The destructor closes the
listening socket, and so does that of its member `acceptSocket_` (`acceptor_iff`).
-/

namespace MuduoRebuild

namespace Acceptor

/-- The values of `errno` that `Socket::accept` tells apart. -/
inductive Errno where
  | EAGAIN
  | ECONNABORTED
  | EINTR
  | EPROTO
  | EPERM
  | EMFILE
  | EBADF
  | EFAULT
  | EINVAL
  | ENFILE
  | ENOBUFS
  | ENOMEM
  | ENOTSOCK
  | EOPNOTSUPP
  | other (n : ℤ)
  deriving DecidableEq, Repr

/-- The errors of `accept4` that pass. -/
def Errno.IsTransient : Errno → Prop
  | .EAGAIN | .ECONNABORTED | .EINTR | .EPROTO | .EPERM | .EMFILE => True
  | _ => False

/-- What has been done with descriptors. -/
inductive Event where
  /-- A connection has been taken from the listening socket. -/
  | accepted (fd : ℕ)
  /-- The descriptor has been passed to the callback. -/
  | passed (fd : ℕ)
  /-- `::close` has been called. -/
  | closed (fd : ℤ)
  deriving DecidableEq, Repr

end Acceptor

/-- The data members of an `Acceptor`; `cb` says whether the callback is set. -/
structure Acceptor where
  listenning : Bool
  /-- `acceptSocket_.fd()`. -/
  acceptSocket : ℕ
  cb : Bool
  idleFd : ℤ

namespace Acceptor

/-- An acceptor and its surroundings. -/
structure World extends Acceptor where
  /-- The poller of the loop, and `events_` and `index_` of the channel. -/
  loop : Loop (EpollPoller Unit) Unit
  /-- The descriptors that are open in the process. -/
  opened : ℤ → Bool
  log : List Event

namespace World

/-- `Acceptor::Acceptor`, when `::socket` returns `sockfd` and `::open` returns `idleFd`, in a
process with these open descriptors. -/
def construct (sockfd : ℕ) (idleFd : ℤ) (opened : ℤ → Bool) : World where
  listenning := false
  acceptSocket := sockfd
  cb := false
  idleFd
  loop := EpollPoller.init
  opened := Function.update opened sockfd true
  log := []

variable (w : World)

/-- The event is appended to the history. -/
def record (e : Event) : World := { w with log := w.log ++ [e] }

/-- `::close`. A descriptor that is closed leaves the interest set of the poller. -/
def close (fd : ℤ) : World :=
  { w.record (.closed fd) with
    opened := Function.update w.opened fd false
    loop := { w.loop with
      poller := { w.loop.poller with
        interest := Function.update w.loop.poller.interest fd none } } }

/-- `::accept` or `::accept4`, and what it returns or leaves in `errno`. -/
def sysAccept (result : Except Errno ℕ) : World × Except Errno ℕ :=
  match result with
  | .ok fd => ({ w.record (.accepted fd) with opened := Function.update w.opened fd true }, .ok fd)
  | .error errno => (w, .error errno)

/-- `::open` of `/dev/null`. -/
def sysOpen (result : Option ℕ) : World × ℤ :=
  match result with
  | some fd => ({ w with opened := Function.update w.opened fd true }, fd)
  | none => (w, -1)

/-- `Acceptor::listen`, when `::listen` succeeds or fails. -/
def listen (ok : Bool) : Except Stop World := do
  let w : World := { w with listenning := true }
  if ok = false then logFatal
  let loop ← ((Channel.Op.update .enableReading ()).perform (fun _ => w.acceptSocket)
    w.loop).mapError .faulted
  return { w with loop }

/-- `Socket::accept`: a descriptor, or the value of `errno`. -/
def accept (result : Except Errno ℕ) : Except Stop (World × Except Errno ℕ) :=
  match w.sysAccept result with
  | (w, .ok connfd) => .ok (w, .ok connfd)
  | (w, .error savedErrno) => do
    logFatal
    match savedErrno with
    | .EAGAIN | .ECONNABORTED | .EINTR | .EPROTO | .EPERM | .EMFILE =>
      return (w, .error savedErrno)
    | .EBADF | .EFAULT | .EINVAL | .ENFILE | .ENOBUFS | .ENOMEM | .ENOTSOCK | .EOPNOTSUPP =>
      logFatal
    | .other _ => logFatal

/-- `Acceptor::handleRead`. The arguments are what its first and its second accept and its
`::open` return. -/
def handleRead (first second : Except Errno ℕ) (reserve : Option ℕ) : Except Stop World := do
  match ← w.accept first with
  | (w, .ok connfd) =>
    if w.cb = true then return w.record (.passed connfd)
    else return w.close w.acceptSocket
  | (w, .error errno) =>
    if errno = .EMFILE then
      let w := w.close w.idleFd
      let w : World :=
        match w.sysAccept second with
        | (w, .ok fd) => { w with idleFd := fd }
        | (w, .error _) => { w with idleFd := -1 }
      let w := w.close w.idleFd
      let (w, idleFd) := w.sysOpen reserve
      return { w with idleFd }
    else return w

/-- `Acceptor::~Acceptor`, the destructor of `acceptSocket_` included. -/
def destroy : World :=
  let w : World := { w with listenning := false }
  let w := w.close w.acceptSocket
  let w := w.close w.idleFd
  w.close w.acceptSocket

/-- What happens to an acceptor that listens. -/
inductive Input where
  | setNewConnectionCallback
  /-- The listening socket is readable. -/
  | handleRead (first second : Except Errno ℕ) (reserve : Option ℕ)
  /-- Other code opens and closes descriptors of its own. -/
  | elsewhere (opened : ℤ → Bool)

def step : Input → Except Stop World
  | .setNewConnectionCallback => .ok { w with cb := true }
  | .handleRead first second reserve => w.handleRead first second reserve
  | .elsewhere opened => .ok { w with
      opened := fun fd => if fd = w.acceptSocket ∨ fd = w.idleFd then w.opened fd else opened fd }

/-! ### What is asked of it -/

/-- The listening socket is open, and the poller watches it. -/
structure Listening : Prop where
  opened : w.opened w.acceptSocket = true
  watched : w.loop.poller.interest w.acceptSocket = some ⟨Channel.kReadEvent, ()⟩

/-- The connection that has been accepted is passed to the callback, or else closed; after
`EMFILE` a pending connection is accepted and closed, and there is a reserve descriptor again if
`::open` succeeds; after another error nothing is done. -/
def Accounts (w : World) : Input → World → Prop
  | .handleRead (.ok fd) _ _, w' =>
    w'.log = w.log ++ [.accepted fd, .passed fd] ∨ w'.log = w.log ++ [.accepted fd, .closed fd]
  | .handleRead (.error .EMFILE) second reserve, w' =>
    (∀ fd, second = .ok fd → w'.log = w.log ++ [.closed w.idleFd, .accepted fd, .closed fd]) ∧
      ∀ fd, reserve = some fd → w'.idleFd = fd ∧ w'.opened fd = true
  | _, w' => w'.log = w.log

/-- The process goes on, the acceptor goes on listening, and the descriptors are accounted for. -/
def Survives (w : World) (i : Input) (r : Except Stop World) : Prop :=
  ∃ w', r = .ok w' ∧ w'.Listening ∧ w.Accounts i w'

/-- The connection is there, and the callback too. -/
def Welcomes (w : World) : Input → Prop
  | .handleRead first _ _ => (∃ fd, first = .ok fd) ∧ w.cb = true
  | _ => True

/-- The destructor closes the listening socket once. -/
def ClosesOnce : Prop :=
  ∃ es, w.destroy.log = w.log ++ es ∧ es.count (.closed w.acceptSocket) = 1

/-- If `accept4` fails, it is with an error that passes. -/
def Input.IsTransient : Input → Prop
  | .handleRead first _ _ => ∀ errno, first = .error errno → errno.IsTransient
  | _ => True

variable {w} {w' : World} {i : Input}

theorem handleRead_ok (fd : ℕ) (second : Except Errno ℕ) (reserve : Option ℕ) :
    w.handleRead (.ok fd) second reserve = .ok
      (let v : World := { w.record (.accepted fd) with
        opened := Function.update w.opened fd true }
      if w.cb = true then v.record (.passed fd) else v.close w.acceptSocket) := by
  by_cases hcb : w.cb = true
  · simp [handleRead, accept, sysAccept, hcb, record]
  · simp [handleRead, accept, sysAccept, hcb, record, close]

/-- Listening ends with the socket. -/
theorem not_listening_close (w : World) : ¬(w.close w.acceptSocket).Listening := by
  intro h
  have hopened : Function.update w.opened w.acceptSocket false w.acceptSocket = true := h.opened
  rw [Function.update_self] at hopened
  cases hopened

theorem Listening.of_accepted (h : w.Listening) (fd : ℕ) :
    Listening { w.record (.accepted fd) with opened := Function.update w.opened fd true } where
  opened := by
    refine (Function.update_apply ..).trans ?_
    split_ifs
    · rfl
    · exact h.opened
  watched := h.watched

/-- A step goes as it should exactly when it welcomes a connection. -/
theorem Listening.survives_iff (h : w.Listening) (i : Input) :
    w.Survives i (w.step i) ↔ w.Welcomes i := by
  cases i with
  | setNewConnectionCallback => exact iff_of_true ⟨_, rfl, ⟨h.opened, h.watched⟩, rfl⟩ trivial
  | elsewhere opened =>
    refine iff_of_true ⟨_, rfl, ⟨?_, h.watched⟩, rfl⟩ trivial
    exact (if_pos (.inl rfl)).trans h.opened
  | handleRead first second reserve =>
    cases first with
    | error errno =>
      -- the process has ended before the error is looked at
      refine iff_of_false ?_ ?_
      · rintro ⟨w', hok, -⟩
        cases hok
      · rintro ⟨⟨fd, hfd⟩, -⟩
        cases hfd
    | ok fd =>
      rw [Survives, step, handleRead_ok]
      by_cases hcb : w.cb = true
      · rw [if_pos hcb]
        refine iff_of_true ⟨_, rfl, ?_, .inl ?_⟩ ⟨⟨fd, rfl⟩, hcb⟩
        · exact ⟨(h.of_accepted fd).opened, (h.of_accepted fd).watched⟩
        · simp [record]
      · rw [if_neg hcb]
        refine iff_of_false ?_ fun hw => hcb hw.2
        rintro ⟨w', hok, hlistening, -⟩
        obtain rfl := Except.ok.inj hok
        exact not_listening_close _ hlistening

/-- The listening socket is closed by `~Acceptor` and then by `~Socket`. -/
theorem not_closesOnce (w : World) : ¬w.ClosesOnce := by
  rintro ⟨es, hlog, hcount⟩
  have hes : es = [.closed w.acceptSocket, .closed w.idleFd, .closed w.acceptSocket] := by
    refine List.append_cancel_left (hlog.symm.trans ?_)
    simp [destroy, close, record]
  rw [hes] at hcount
  simp only [List.count_cons, List.count_nil, beq_self_eq_true, if_true] at hcount
  omega

/-- `listen` registers the channel. -/
theorem listening_of_listen {sockfd : ℕ} {idleFd : ℤ} {opened : ℤ → Bool} {ok : Bool}
    (h : (construct sockfd idleFd opened).listen ok = .ok w) : w.Listening := by
  cases ok with
  | false => cases h
  | true =>
    have htracks : EpollPoller.Tracks (fun _ : Unit => sockfd) EpollPoller.init .empty :=
      EpollPoller.tracks_init
    obtain ⟨loop, hloop, -, -, hcase⟩ :=
      htracks.perform_update (u := .enableReading) (c := ()) Registry.sane_empty
    obtain ⟨loop', hmap, h⟩ := Fallible.bind_eq_ok.mp h
    obtain rfl := Except.ok.inj h
    obtain rfl := Except.ok.inj ((congrArg (Except.mapError Stop.faulted) hloop).symm.trans hmap)
    refine ⟨Function.update_self .., ?_⟩
    rcases hcase with ⟨-, hinterest, -⟩ | ⟨-, -, hzero⟩
    · exact (congrFun hinterest _).trans (Function.update_self ..)
    · exact absurd hzero (by decide)

end World

open World

/-- **The acceptor.** From the time it listens, whatever its system calls return and whatever
other code does with its own descriptors, every step goes as it should exactly when every
`accept4` succeeds and a callback is installed. In no state does the destructor close the
listening socket exactly once. -/
theorem acceptor_iff {sockfd : ℕ} {idleFd : ℤ} {opened : ℤ → Bool} {ok : Bool} {start : World}
    (hlisten : (World.construct sockfd idleFd opened).listen ok = .ok start)
    {is : List World.Input} (htransient : ∀ i ∈ is, i.IsTransient) :
    (Machine.Along World.step World.Survives start is ↔
        Machine.Along World.step (Machine.onInput World.Welcomes) start is) ∧
      ∀ w, Machine.run World.step start is = .ok w → ¬w.ClosesOnce := by
  constructor
  · refine Machine.along_iff_along_of_forall Listening htransient (listening_of_listen hlisten)
      (fun w i h _ => h.survives_iff i) ?_
    rintro w i w' - - ⟨v, hok, hlistening, -⟩ hok'
    obtain rfl := Except.ok.inj (hok.symm.trans hok')
    exact hlistening
  · intro w _
    exact not_closesOnce w

/-- A callback is installed, and a connection is passed to it. -/
theorem acceptor_iff_welcomed : ∃ start,
    (World.construct 3 4 fun fd => fd = 4).listen true = .ok start ∧
    (Machine.Along World.step World.Survives start
        [.setNewConnectionCallback, .handleRead (.ok 5) (.error .EAGAIN) none] ↔
      Machine.Along World.step (Machine.onInput World.Welcomes) start
        [.setNewConnectionCallback, .handleRead (.ok 5) (.error .EAGAIN) none]) := by
  have hlisten : (World.construct 3 4 fun fd => fd = 4).listen true = .ok _ := rfl
  refine ⟨_, hlisten, (acceptor_iff hlisten ?_).1⟩
  intro i hi
  simp only [List.mem_cons, List.not_mem_nil, or_false] at hi
  rcases hi with rfl | rfl
  · trivial
  · intro errno herror
    cases herror

/-- A connection that was aborted ends the process. Without a callback the listening socket is
closed in place of the connection. The destructor closes the listening socket twice. -/
theorem not_accepted : ∃ start,
    (World.construct 3 4 fun fd => fd = 4).listen true = .ok start ∧
    start.step (.handleRead (.error .ECONNABORTED) (.error .EAGAIN) none) = .error .exited ∧
    (∃ w, start.step (.handleRead (.ok 5) (.error .EAGAIN) none) = .ok w ∧
      w.log = [.accepted 5, .closed 3] ∧ w.opened 3 = false ∧ w.opened 5 = true) ∧
    ¬Machine.Along World.step World.Survives start
      [.handleRead (.error .ECONNABORTED) (.error .EAGAIN) none] ∧
    ¬Machine.Along World.step World.Survives start
      [.handleRead (.ok 5) (.error .EAGAIN) none] ∧
    start.destroy.log = [.closed 3, .closed 4, .closed 3] ∧ ¬start.ClosesOnce := by
  refine ⟨_, rfl, rfl, ⟨_, rfl, rfl, rfl, rfl⟩, ?_, ?_, rfl, not_closesOnce _⟩
  · rintro ⟨⟨w', hok, -⟩, -⟩
    cases hok
  · rintro ⟨⟨w', hok, hlistening, -⟩, -⟩
    obtain rfl := Except.ok.inj hok
    exact not_listening_close _ hlistening

end Acceptor

end MuduoRebuild
