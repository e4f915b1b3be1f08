import Ykern.Foundation.Loops
import Ykern.Netlink.Wire

/-!
# Receiving messages

The program receives datagrams into one buffer and walks the messages in each. The body
of the walk goes on, ends the loop, or returns; the loop goes on to the next datagram
when a walk came to its end (`receiveLoop`). When nothing is queued, the program waits.

Behind a datagram the buffer has what was there before; the loop is one on datagrams with
such stale bytes (`receiveLoop_eq_arrivals`). A body that looks at one message at a time
makes the loop depend only on the messages in the datagrams (`receiveLoop_eq`). The loop then
handles the messages of the queue in order (`receiveMessages_foldUntil`), however they are
split into datagrams.
-/

set_option autoImplicit false

namespace Ykern.Netlink

/-- The messages in a datagram. -/
def Datagram.messages (d : Datagram) : List Bytes := nlmsg.frames d.bytes

theorem Datagram.Carries.messages_eq {d : Datagram} {ms : List Bytes} (carries : d.Carries ms) :
    d.messages = ms :=
  Framing.Packs.frames_eq carries

/-- A datagram with messages is not empty. -/
theorem Datagram.bytes_ne_nil {d : Datagram} (nonempty : d.messages ≠ []) : d.bytes ≠ [] := by
  intro none
  rw [Datagram.messages, none] at nonempty
  exact nonempty nlmsg.frames_nil

/-- A walk over a received datagram visits its messages. -/
theorem Datagram.walk_messages (d : Datagram) (stale : Mem) :
    (nlmsg.walk (stale.place d.bytes 0) 0 d.bytes.length).map
      (nlmsg.recordAt (stale.place d.bytes 0)) = d.messages := by
  rw [nlmsg.walk_frames, Int.toNat_natCast, Mem.slice_place, Datagram.messages]

/-- A message visited has a header, fits the buffer and is one of the datagram. -/
theorem Datagram.mem_walk {d : Datagram} {stale : Mem} {a : Nat}
    (member : a ∈ nlmsg.walk (stale.place d.bytes 0) 0 d.bytes.length) :
    16 ≤ nlmsg.declaredAt (stale.place d.bytes 0) a ∧
      nlmsg.declaredAt (stale.place d.bytes 0) a ≤ 65536 ∧
        nlmsg.recordAt (stale.place d.bytes 0) a ∈ d.messages := by
  obtain ⟨_, covers, within⟩ := Framing.walk_within member
  have fits := d.fits
  refine ⟨covers, by omega, ?_⟩
  rw [← d.walk_messages stale]
  exact List.mem_map_of_mem member

/-- How receiving ended, and the datagrams left in the queue: the loop is over, the program
returned, or it waits for a datagram. -/
inductive Reception (σ ρ : Type) where
  | stopped (s : σ) (left : List Datagram)
  | returned (r : ρ) (left : List Datagram)
  | waiting (s : σ)

variable {σ ρ : Type}

/-- The receive loop. A call of `recv` fails after so many datagrams, if any; an empty
datagram may end the loop. -/
def receiveLoop (body : Mem → σ → Nat → Control σ ρ) (failed : σ → ρ) (stopAtEmpty : Bool)
    (queue : List Datagram) (fails : Option Nat) (buf : Mem) (s : σ) : Reception σ ρ :=
  if fails = some 0 then .returned (failed s) queue
  else
    match queue with
    | [] => .waiting s
    | d :: queue =>
        if stopAtEmpty ∧ d.bytes = [] then .stopped s queue
        else
          let buf := buf.place d.bytes 0
          match foldUntil (body buf) s (nlmsg.walk buf 0 d.bytes.length) with
          | .ran s => receiveLoop body failed stopAtEmpty queue (fails.map (· - 1)) buf s
          | .stopped s => .stopped s queue
          | .done r => .returned r queue

/-- The receive loop on the messages of the datagrams. -/
def receiveMessages (record : σ → Bytes → Control σ ρ) (failed : σ → ρ) (stopAtEmpty : Bool)
    (queue : List Datagram) (fails : Option Nat) (s : σ) : Reception σ ρ :=
  if fails = some 0 then .returned (failed s) queue
  else
    match queue with
    | [] => .waiting s
    | d :: queue =>
        if stopAtEmpty ∧ d.bytes = [] then .stopped s queue
        else
          match foldUntil record s d.messages with
          | .ran s => receiveMessages record failed stopAtEmpty queue (fails.map (· - 1)) s
          | .stopped s => .stopped s queue
          | .done r => .returned r queue

/-- A walk over a received datagram is a walk over its messages. -/
theorem foldUntil_walk {body : σ → Nat → Control σ ρ} {record : σ → Bytes → Control σ ρ}
    (good : Bytes → Prop) (buf : Mem) (d : Datagram) (wellFormed : ∀ m ∈ d.messages, good m)
    (looks : ∀ s a, 16 ≤ nlmsg.declaredAt (buf.place d.bytes 0) a →
      nlmsg.declaredAt (buf.place d.bytes 0) a ≤ 65536 →
      good (nlmsg.recordAt (buf.place d.bytes 0) a) →
      body s a = record s (nlmsg.recordAt (buf.place d.bytes 0) a)) (s : σ) :
    foldUntil body s (nlmsg.walk (buf.place d.bytes 0) 0 d.bytes.length) =
      foldUntil record s d.messages := by
  rw [← d.walk_messages buf, foldUntil_map]
  apply foldUntil_congr
  intro s a member
  obtain ⟨covers, short, visited⟩ := Datagram.mem_walk member
  exact looks s a covers short (wellFormed _ visited)

/-- **Receiving depends only on the messages in the datagrams.** -/
theorem receiveLoop_eq {body : Mem → σ → Nat → Control σ ρ} {record : σ → Bytes → Control σ ρ}
    (good : Bytes → Prop)
    (looks : ∀ (buf : Mem) (s : σ) (a : Nat), 16 ≤ nlmsg.declaredAt buf a →
      nlmsg.declaredAt buf a ≤ 65536 → good (nlmsg.recordAt buf a) →
      body buf s a = record s (nlmsg.recordAt buf a))
    (failed : σ → ρ) (stopAtEmpty : Bool) {queue : List Datagram}
    (wellFormed : ∀ d ∈ queue, ∀ m ∈ d.messages, good m) (fails : Option Nat) (buf : Mem) (s : σ) :
    receiveLoop body failed stopAtEmpty queue fails buf s =
      receiveMessages record failed stopAtEmpty queue fails s := by
  induction queue generalizing fails buf s with
  | nil =>
      rw [receiveLoop, receiveMessages]
  | cons d queue ih =>
      rw [receiveLoop, receiveMessages]
      have walked := foldUntil_walk good buf d (wellFormed d (by simp))
        (fun s a => looks (buf.place d.bytes 0) s a) s
      simp only [walked]
      split
      · rfl
      split
      · rfl
      split
      · exact ih (fun d' member => wellFormed d' (by simp [member])) _ _ _
      · rfl
      · rfl

/-- The messages in a queue. -/
def queued (queue : List Datagram) : List Bytes := queue.flatMap Datagram.messages

@[simp] theorem queued_nil : queued [] = [] := rfl

@[simp] theorem queued_cons (d : Datagram) (queue : List Datagram) :
    queued (d :: queue) = d.messages ++ queued queue := by
  rw [queued, List.flatMap_cons, queued]

/-- The messages in datagrams that carry batches are those of the batches. -/
theorem queued_of_carries {ds : List Datagram} {batches : List (List Bytes)}
    (carries : List.Forall₂ Datagram.Carries ds batches) : queued ds = batches.flatten := by
  induction carries with
  | nil => rfl
  | cons first _ ih => rw [queued_cons, first.messages_eq, List.flatten_cons, ih]

/-- **Without failures the messages of the queue are handled in order**, until the loop ends
or the program returns, if no empty datagram ends the loop. -/
theorem receiveMessages_foldUntil (record : σ → Bytes → Control σ ρ) (failed : σ → ρ)
    (stopAtEmpty : Bool) {queue : List Datagram}
    (nonempty : stopAtEmpty = true → ∀ d ∈ queue, d.bytes ≠ []) (s : σ) :
    match foldUntil record s (queued queue) with
    | .ran s' => receiveMessages record failed stopAtEmpty queue none s = .waiting s'
    | .stopped s' =>
        ∃ left, receiveMessages record failed stopAtEmpty queue none s = .stopped s' left
    | .done r =>
        ∃ left, receiveMessages record failed stopAtEmpty queue none s = .returned r left := by
  induction queue generalizing s with
  | nil => rfl
  | cons d queue ih =>
      have rest := fun s => ih (fun stops d' member => nonempty stops d' (by simp [member])) s
      rw [queued_cons, foldUntil_append, receiveMessages, if_neg (by simp),
        if_neg fun both => nonempty both.1 d (by simp) both.2]
      cases foldUntil record s d.messages with
      | ran s' => exact rest s'
      | stopped s' => exact ⟨queue, rfl⟩
      | done r => exact ⟨queue, rfl⟩

/-! ## Stale bytes -/

/-- A datagram that was received, and what was in the buffer before. -/
structure Arrival where
  datagram : Datagram
  stale : Mem

/-- The buffer after a datagram was received. -/
def Arrival.buf (a : Arrival) : Mem := a.stale.place a.datagram.bytes 0

theorem Arrival.walk_messages (a : Arrival) :
    (nlmsg.walk a.buf 0 a.datagram.bytes.length).map (nlmsg.recordAt a.buf) =
      a.datagram.messages :=
  a.datagram.walk_messages a.stale

/-- The receive loop on datagrams that were received into buffers of their own. -/
def receiveArrivals (body : Mem → σ → Nat → Control σ ρ) (failed : σ → ρ)
    (arrivals : List Arrival) (fails : Option Nat) (s : σ) : Reception σ ρ :=
  if fails = some 0 then .returned (failed s) (arrivals.map Arrival.datagram)
  else
    match arrivals with
    | [] => .waiting s
    | a :: arrivals =>
        match foldUntil (body a.buf) s (nlmsg.walk a.buf 0 a.datagram.bytes.length) with
        | .ran s => receiveArrivals body failed arrivals (fails.map (· - 1)) s
        | .stopped s => .stopped s (arrivals.map Arrival.datagram)
        | .done r => .returned r (arrivals.map Arrival.datagram)

/-- What arrives in one buffer: behind each datagram are the bytes of those before. -/
def arrivalsIn (buf : Mem) : List Datagram → List Arrival
  | [] => []
  | d :: ds => ⟨d, buf⟩ :: arrivalsIn (buf.place d.bytes 0) ds

@[simp] theorem datagrams_arrivalsIn (buf : Mem) (ds : List Datagram) :
    (arrivalsIn buf ds).map Arrival.datagram = ds := by
  induction ds generalizing buf with
  | nil => rfl
  | cons d ds ih => rw [arrivalsIn, List.map_cons, ih]

/-- The receive loop is the one on what arrives in its buffer. -/
theorem receiveLoop_eq_arrivals (body : Mem → σ → Nat → Control σ ρ) (failed : σ → ρ)
    (queue : List Datagram) (fails : Option Nat) (buf : Mem) (s : σ) :
    receiveLoop body failed false queue fails buf s =
      receiveArrivals body failed (arrivalsIn buf queue) fails s := by
  induction queue generalizing fails buf s with
  | nil => rw [receiveLoop, arrivalsIn, receiveArrivals, List.map_nil]
  | cons d queue ih =>
      rw [receiveLoop, arrivalsIn, receiveArrivals, List.map_cons, datagrams_arrivalsIn,
        if_neg (show ¬(false = true ∧ d.bytes = []) by simp)]
      dsimp only [Arrival.buf]
      split
      · rfl
      split
      · exact ih _ _ _
      · rfl
      · rfl

end Ykern.Netlink
