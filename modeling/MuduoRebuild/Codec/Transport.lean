import MuduoRebuild.Codec.Lossless
import MuduoRebuild.TcpConnection.OutputStream

/-!
# Messages over a connection

`LengthHeaderCodec::send` passes a frame to `TcpConnection::send`, which any thread may call:
`ChatClient::write` does so in the thread that reads the terminal, and `ChatServer` in that of the
loop. The connection queues what it cannot write at once, and the socket may accept any part of what
it is given. `transport` says that a peer which has received a part of the stream, in whatever
pieces, has got the first of the messages that were executed, whole and in order, and of each thread
they are the first that it has sent.
-/

namespace MuduoRebuild

namespace LengthHeaderCodec

open Mailbox TcpConnection

/-- Everything that is sent goes through the codec, and the decoder accepts its length. -/
def Framed (log : List Event) : Prop :=
  ∀ p ∈ requested log, ∃ message, message.length ≤ 65536 ∧ send message = .ok p.2

/-- The message in a frame. -/
def payload (bytes : List UInt8) : List UInt8 := bytes.drop kHeaderLen

theorem payload_frame (message : List UInt8) : payload (frame message) = message := by
  obtain ⟨b₀, b₁, b₂, b₃, hframe, -⟩ := exists_frame_header message
  rw [hframe]
  rfl

theorem mem_messagesOf {t : Thread} {message : List UInt8} {l : List (Thread × List UInt8)} :
    message ∈ messagesOf t l ↔ (t, message) ∈ l := by
  constructor
  · intro hmem
    obtain ⟨p, hp, rfl⟩ := List.mem_map.mp hmem
    obtain ⟨hp, ht⟩ := List.mem_filter.mp hp
    exact of_decide_eq_true ht ▸ hp
  · intro hmem
    exact List.mem_map.mpr ⟨_, List.mem_filter.mpr ⟨hmem, decide_eq_true rfl⟩, rfl⟩

/-- The messages of a thread, when something is done to each message. -/
theorem messagesOf_map_snd (t : Thread) (f : List UInt8 → List UInt8)
    (l : List (Thread × List UInt8)) :
    messagesOf t (l.map fun p => (p.1, f p.2)) = (messagesOf t l).map f := by
  rw [messagesOf, List.filter_map, List.map_map, messagesOf, List.map_map]
  rfl

/-- What is executed has been requested, so it is a frame. -/
theorem Framed.of_executed {w : World} (h : Framed w.log) (hintact : StreamIntegrity w) :
    ∀ p ∈ executed w.log, (payload p.2).length ≤ 65536 ∧ p.2 = frame (payload p.2) := by
  rintro ⟨t, bytes⟩ hp
  have hrequested : bytes ∈ messagesOf t (requested w.log) :=
    (hintact.order t).mem (mem_messagesOf.mpr hp)
  obtain ⟨message, hlen, hsend⟩ := h _ (mem_messagesOf.mp hrequested)
  obtain ⟨-, rfl⟩ := send_eq_ok.mp hsend
  rw [payload_frame]
  exact ⟨hlen, rfl⟩

/-- A peer that has received a beginning of what has been accepted of these frames has decoded the
first of the messages, and all of them if nothing is left. -/
theorem onChunks_of_stream {messages : List (List UInt8)} {chunks : List (List UInt8)}
    {taken left : List UInt8} (hmax : ∀ message ∈ messages, message.length ≤ 65536)
    (hstream : taken ++ left = (messages.map frame).flatten) (hchunks : chunks.flatten <+: taken) :
    (onChunks chunks).stopped = false ∧ (onChunks chunks).items <+: messages ∧
      (chunks.flatten = taken → left = [] → (onChunks chunks).items = messages) := by
  have hparse : onChunks chunks = onMessage chunks.flatten :=
    Framing.Reader.feed_eq_parse chunks
  have hprefix : chunks.flatten <+: (messages.map frame).flatten := by
    rw [← hstream]
    exact hchunks.trans (List.prefix_append _ _)
  obtain ⟨hstopped, hitems⟩ := onMessage_of_prefix hmax hprefix
  rw [hparse]
  refine ⟨hstopped, hitems, fun hall hempty => ?_⟩
  rw [hempty, List.append_nil] at hstream
  rw [hall, hstream, onMessage_frames hmax]

/-- **Messages over a connection.** In every state that a run of a connection reaches, whatever
threads have called `send` and however their calls, the functors and the writes were interleaved: if
all that is sent goes through the codec, the calls of `sendInLoop` have been given the frames of
certain messages; of each thread these are the first that it has sent; a peer that has received a
beginning of what the socket has accepted, in whatever pieces, has decoded the first of these
messages and no invalid length; and it has decoded all of them when everything has arrived and
nothing is left in the output buffer. -/
theorem transport {c : Setup} {ls : List World.Label} {w : World}
    (hrun : Machine.run (World.step c) World.init ls = .ok w) (hframed : Framed w.log) :
    ∃ messages : List (Thread × List UInt8),
      executed w.log = messages.map (fun p => (p.1, frame p.2)) ∧
      (∀ t, (messagesOf t messages).map frame <+: messagesOf t (requested w.log)) ∧
      ∀ chunks : List (List UInt8), chunks.flatten <+: accepted w.log →
        (onChunks chunks).stopped = false ∧ (onChunks chunks).items <+: messages.map Prod.snd ∧
          (chunks.flatten = accepted w.log → w.outputBuffer = [] →
            (onChunks chunks).items = messages.map Prod.snd) := by
  have hrunning := World.intact_of_run hrun
  have hintact : StreamIntegrity w := ⟨hrunning.streams, hrunning.inOrder.taken_prefix⟩
  set messages := (executed w.log).map fun p => (p.1, payload p.2) with hmessages
  have hexecuted : executed w.log = messages.map (fun p => (p.1, frame p.2)) := by
    rw [hmessages, List.map_map]
    refine (List.map_id _).symm.trans (List.map_congr_left fun p hp => ?_)
    exact Prod.ext rfl (hframed.of_executed hintact p hp).2
  have hmax : ∀ message ∈ messages.map Prod.snd, message.length ≤ 65536 := by
    intro message hmem
    rw [hmessages, List.map_map] at hmem
    obtain ⟨p, hp, rfl⟩ := List.mem_map.mp hmem
    exact (hframed.of_executed hintact p hp).1
  clear_value messages
  have hstream : accepted w.log ++ w.outputBuffer =
      ((messages.map Prod.snd).map frame).flatten := by
    rw [hintact.stream, hexecuted, List.map_map, List.map_map]
    rfl
  refine ⟨messages, hexecuted, fun t => ?_, fun chunks hchunks =>
    onChunks_of_stream hmax hstream hchunks⟩
  rw [← messagesOf_map_snd, ← hexecuted]
  exact hintact.order t

/-- The labels of a run in which two threads send a message each through the codec, and the socket
accepts the first five bytes at once. -/
def twoThreads : List World.Label :=
  [.runFunctor none, .runTask none, .runTask none, .call 7 (.send (.buffer [0, 0, 0, 1, 65])),
    .callInLoop (some 5) (.send (.buffer [0, 0, 0, 1, 66])), .continueCall 7,
    .runFunctor (some 2)]

theorem transport_twoThreads : ∃ w,
    Machine.run (World.step (.server 5 false false)) World.init twoThreads = .ok w ∧
    accepted w.log = [0, 0, 0, 1, 66, 0, 0] ∧
    (onChunks [[0, 0, 0], [1, 66, 0], [0]]).items <+: [[66], [65]] := by
  obtain ⟨w, hrun, haccepted, hrequested, hexecuted⟩ : ∃ w,
      Machine.run (World.step (.server 5 false false)) World.init twoThreads = .ok w ∧
      accepted w.log = [0, 0, 0, 1, 66, 0, 0] ∧
      requested w.log = [(.other 7, [0, 0, 0, 1, 65]), (.loop, [0, 0, 0, 1, 66])] ∧
      executed w.log = [(.loop, [0, 0, 0, 1, 66]), (.other 7, [0, 0, 0, 1, 65])] :=
    ⟨_, rfl, rfl, rfl, rfl⟩
  have hframed : Framed w.log := by
    rw [Framed, hrequested, List.forall_mem_cons, List.forall_mem_singleton]
    exact ⟨⟨[65], by decide, send_eq_ok.mpr ⟨by decide, rfl⟩⟩,
      ⟨[66], by decide, send_eq_ok.mpr ⟨by decide, rfl⟩⟩⟩
  obtain ⟨messages, hframes, -, hpeer⟩ := transport hrun hframed
  have hmessages : [[66], [65]] = messages.map Prod.snd := by
    have hpayloads := congrArg (List.map fun p => payload p.2) (hexecuted.symm.trans hframes)
    rw [List.map_map] at hpayloads
    simp only [Function.comp_def, payload_frame] at hpayloads
    exact hpayloads
  refine ⟨w, hrun, haccepted, ?_⟩
  rw [hmessages]
  exact (hpeer [[0, 0, 0], [1, 66, 0], [0]] (haccepted ▸ List.prefix_rfl)).2.1

end LengthHeaderCodec

end MuduoRebuild
