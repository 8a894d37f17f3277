import DazeApi.Lib.Chan
import DazeApi.Lib.Pool
import DazeApi.Lib.Run

/-!
# The bus of the tuning events

`ClawdEventBus` hands every event of the scheduler and of the administrators to the pages that
watch.  A page has a channel with room for 16 events; `Publish` offers an event to every channel
of the map and skips one that is full.  `Subscribe` and `Unsubscribe` change the map under the
write lock and `Publish` goes through it under the read lock, so publishers run side by side
while nobody changes the map.  `Unsubscribe` closes the channel it has taken out, and a send
on a closed channel panics.

`bus_spec` says that this does not happen under any interleaving, that a publish reaches each
page that was subscribed when it began, once, unless the page had 16 events waiting, and that
a page sees a publish after those that were over when it began.
-/

namespace DazeApi.Channels.EventBus

/-- A channel of `Subscribe`.  An event is known by the number of its `Publish`. -/
structure Subscriber where
  chan : Chan Nat
  /-- It is a key of `subscribers`. -/
  inMap : Bool
  /-- What its page has received, and what it was not sent because it was full. -/
  received : List Nat
  missed : List Nat

def Subscriber.make : Subscriber := ⟨Chan.make 16, true, [], []⟩

/-- Where a call stands.  A publish remembers the keys it has been at, the keys when it got the
lock, and the publishes that were over then. -/
inductive Proc
  | subscribe (inside : Bool)
  | unsubscribe (i : Nat) (inside : Bool)
  /-- The key is out of the map and the channel is about to be closed. -/
  | closing (i : Nat)
  | publish
  | ranging (visited members past : List Nat)
  | published (members past : List Nat)
  | done

structure State where
  subs : List Subscriber
  procs : List Proc
  /-- A send on a closed channel, or a close of one. -/
  panicked : Bool

def initial : State := ⟨[], [], false⟩

def Proc.writing : Proc → Bool
  | .subscribe inside => inside
  | .unsubscribe _ inside => inside
  | .closing _ => true
  | _ => false

def Proc.reading : Proc → Bool
  | .ranging _ _ _ => true
  | _ => false

/-- `mu.Lock()` returns. -/
def State.canWrite (s : State) : Bool := s.procs.all fun p => !p.writing && !p.reading

/-- `mu.RLock()` returns. -/
def State.canRead (s : State) : Bool := s.procs.all fun p => !p.writing

/-- The keys of the map. -/
def State.keys (s : State) : List Nat :=
  (List.range s.subs.length).filter fun i => s.subs[i]?.any (·.inMap)

/-- The publishes that are over. -/
def State.over (s : State) : List Nat :=
  (List.range s.procs.length).filter fun i =>
    match s.procs[i]? with
    | some (.published _ _) => true
    | _ => false

inductive Act
  | callSubscribe
  | callUnsubscribe (i : Nat)
  | callPublish
  /-- The next step of a call other than an offer. -/
  | next (p : Nat)
  /-- The range over the map comes to the key `i`. -/
  | offer (p i : Nat)
  /-- A page receives. -/
  | recv (i : Nat)

/-- `select { case ch <- event: default: }`. -/
def Subscriber.offer (sub : Subscriber) (p : Nat) : Subscriber :=
  match sub.chan.send p with
  | some chan => { sub with chan := chan }
  | none => { sub with missed := sub.missed ++ [p] }

/-- The next step of the call `p`, which is not an offer. -/
def State.next (s : State) (p : Nat) : Proc → Option State
  | .subscribe false => if s.canWrite then some { s with procs := s.procs.set p (.subscribe true) } else none
  | .subscribe true => some { s with subs := s.subs ++ [.make], procs := s.procs.set p .done }
  | .unsubscribe i false =>
      if s.canWrite then some { s with procs := s.procs.set p (.unsubscribe i true) } else none
  | .unsubscribe i true =>
      match s.subs[i]? with
      | none => none
      | some sub =>
          if sub.inMap then
            some { s with
              subs := s.subs.set i { sub with inMap := false }, procs := s.procs.set p (.closing i) }
          else some { s with procs := s.procs.set p .done }
  | .closing i =>
      match s.subs[i]? with
      | none => none
      | some sub =>
          some ⟨s.subs.set i { sub with chan := sub.chan.close }, s.procs.set p .done,
            s.panicked || sub.chan.closed⟩
  | .publish =>
      if s.canRead then some { s with procs := s.procs.set p (.ranging [] s.keys s.over) } else none
  | .ranging visited members past =>
      -- the range is over when it has been at every key
      if s.keys.all (visited.contains ·) then
        some { s with procs := s.procs.set p (.published members past) }
      else none
  | .published _ _ => none
  | .done => none

def step (s : State) : Act → Option State
  | .callSubscribe => some { s with procs := s.procs ++ [.subscribe false] }
  | .callUnsubscribe i => some { s with procs := s.procs ++ [.unsubscribe i false] }
  | .callPublish => some { s with procs := s.procs ++ [.publish] }
  | .next p => s.procs[p]?.bind (s.next p)
  | .offer p i =>
      match s.procs[p]?, s.subs[i]? with
      | some (.ranging visited members past), some sub =>
          if sub.inMap && !visited.contains i then
            some ⟨s.subs.set i (sub.offer p), s.procs.set p (.ranging (i :: visited) members past),
              s.panicked || sub.chan.closed⟩
          else none
      | _, _ => none
  | .recv i =>
      match s.subs[i]? with
      | none => none
      | some sub =>
          match sub.chan.recv with
          | none => none
          | some (none, _) => some s
          | some (some x, chan) =>
              some { s with subs := s.subs.set i { sub with chan := chan, received := sub.received ++ [x] } }

/-! ## What a page has seen -/

/-- What was sent to the page, in the order of the sends. -/
def Subscriber.seen (sub : Subscriber) : List Nat := sub.received ++ sub.chan.buf

/-- Which publishes went to the page. -/
def Subscriber.reached (sub : Subscriber) (p : Nat) : Nat :=
  sub.seen.count p + sub.missed.count p

/-- The keys a publish has been at. -/
def Proc.visits : Proc → List Nat
  | .ranging visited _ _ => visited
  | .published members _ => members
  | _ => []

/-- The publishes that were over when it began. -/
def Proc.past : Proc → List Nat
  | .ranging _ _ past => past
  | .published _ past => past
  | _ => []

def State.visits (s : State) (p : Nat) : List Nat := ((s.procs[p]?).map Proc.visits).getD []

def State.past (s : State) (p : Nat) : List Nat := ((s.procs[p]?).map Proc.past).getD []

/-! ## The invariant -/

/-- Who changes the map has the lock alone. -/
def Exclusive (procs : List Proc) : Prop :=
  ∀ (p q : Nat) (a b : Proc), procs[p]? = some a → procs[q]? = some b → p ≠ q → a.writing = true →
    b.writing = false ∧ b.reading = false

structure Inv (s : State) : Prop where
  calm : s.panicked = false
  exclusive : Exclusive s.procs
  /-- A channel of the map is open, and so is one that is about to be closed. -/
  opened : ∀ (i : Nat) (sub : Subscriber), s.subs[i]? = some sub → sub.inMap = true → sub.chan.closed = false
  closing : ∀ (p i : Nat), s.procs[p]? = some (.closing i) → ∀ sub : Subscriber, s.subs[i]? = some sub →
    sub.inMap = false ∧ sub.chan.closed = false
  /-- The map is what it was when a publish that is under way got the lock. -/
  keys : ∀ (p : Nat) (v m past : List Nat), s.procs[p]? = some (.ranging v m past) →
    m = s.keys ∧ ∀ i ∈ v, i ∈ m
  bound : ∀ p, ∀ i ∈ s.visits p, i < s.subs.length
  reached : ∀ (p i : Nat) (sub : Subscriber), s.subs[i]? = some sub →
    sub.reached p = if i ∈ s.visits p then 1 else 0
  past : ∀ p, ∀ x ∈ s.past p, x ∈ s.over
  order : ∀ (i : Nat) (sub : Subscriber), s.subs[i]? = some sub → sub.seen.Pairwise fun x y => y ∉ s.past x
  room : ∀ (i : Nat) (sub : Subscriber), s.subs[i]? = some sub → sub.chan.buf.length ≤ sub.chan.cap ∧ sub.chan.cap = 16

section

variable {s s' : State} {p q i j : Nat} {a b : Proc} {sub : Subscriber}

/-! ## Keys and finished publishes -/

theorem mem_keys : i ∈ s.keys ↔ ∃ sub, s.subs[i]? = some sub ∧ sub.inMap = true := by
  rw [State.keys, List.mem_filter, List.mem_range, Option.any_eq_true]
  refine and_iff_right_of_imp fun h => ?_
  obtain ⟨sub, hsub, -⟩ := h
  exact (List.getElem?_eq_some_iff.1 hsub).1

theorem mem_over : p ∈ s.over ↔ ∃ m past, s.procs[p]? = some (.published m past) := by
  rw [State.over, List.mem_filter, List.mem_range]
  constructor
  · rintro ⟨-, h⟩
    split at h
    next m past hp => exact ⟨m, past, hp⟩
    next => cases h
  · rintro ⟨m, past, hp⟩
    rw [hp]
    exact ⟨(List.getElem?_eq_some_iff.1 hp).1, rfl⟩

theorem visits_of_get (h : s.procs[p]? = some a) : s.visits p = a.visits := by
  rw [State.visits, h]
  rfl

theorem past_of_get (h : s.procs[p]? = some a) : s.past p = a.past := by
  rw [State.past, h]
  rfl

/-! ## The lock -/

theorem Exclusive.set (h : Exclusive s.procs) (hp : s.procs[p]? = some a)
    (hwriting : b.writing = true → a.writing = true)
    (hreading : b.reading = true → a.reading = true) : Exclusive (s.procs.set p b) := by
  intro x y c d hx hy hxy hc
  rcases Pool.get_set hx with ⟨rfl, rfl⟩ | ⟨hxp, hx'⟩
  · rcases Pool.get_set hy with ⟨rfl, rfl⟩ | ⟨hyp, hy'⟩
    · exact absurd rfl hxy
    · exact h _ _ _ _ hp hy' hxy (hwriting hc)
  · rcases Pool.get_set hy with ⟨rfl, rfl⟩ | ⟨hyp, hy'⟩
    · obtain ⟨hw, hr⟩ := h _ _ _ _ hx' hp hxy hc
      exact ⟨Bool.eq_false_iff.2 fun hd => absurd (hwriting hd) (by rw [hw]; decide),
        Bool.eq_false_iff.2 fun hd => absurd (hreading hd) (by rw [hr]; decide)⟩
    · exact h _ _ _ _ hx' hy' hxy hc

theorem Exclusive.start (h : Exclusive s.procs) (hwriting : b.writing = false)
    (hreading : b.reading = false) : Exclusive (s.procs ++ [b]) := by
  intro x y c d hx hy hxy hc
  rcases Pool.get_start hx with hx | rfl
  · rcases Pool.get_start hy with hy | rfl
    · exact h _ _ _ _ hx hy hxy hc
    · exact ⟨hwriting, hreading⟩
  · rw [hwriting] at hc
    cases hc

/-- The write lock is given when nobody is inside. -/
theorem Exclusive.write (h : s.canWrite = true) : Exclusive (s.procs.set p b) := by
  rw [State.canWrite, List.all_eq_true] at h
  have hnone : ∀ {c : Proc}, c ∈ s.procs → c.writing = false ∧ c.reading = false := by
    intro c hc
    have hc := h c hc
    rwa [Bool.and_eq_true, Bool.not_eq_true', Bool.not_eq_true'] at hc
  intro x y c d hx hy hxy hc
  rcases Pool.get_set hx with ⟨rfl, rfl⟩ | ⟨hxp, hx⟩
  · rcases Pool.get_set hy with ⟨rfl, rfl⟩ | ⟨hyp, hy⟩
    · exact absurd rfl hxy
    · exact hnone (Pool.mem_of_get hy)
  · rw [(hnone (Pool.mem_of_get hx)).1] at hc
    cases hc

/-- The read lock is given when nobody writes. -/
theorem Exclusive.read (h : s.canRead = true) (hb : b.writing = false) :
    Exclusive (s.procs.set p b) := by
  rw [State.canRead, List.all_eq_true] at h
  intro x y c d hx hy hxy hc
  rcases Pool.get_set hx with ⟨rfl, rfl⟩ | ⟨hxp, hx⟩
  · rw [hb] at hc
    cases hc
  · have hx := h c (Pool.mem_of_get hx)
    rw [hc] at hx
    cases hx

/-- Nobody ranges over the map while somebody writes. -/
theorem Inv.not_ranging (h : Inv s) (hp : s.procs[p]? = some a) (ha : a.writing = true)
    {v m past : List Nat} : s.procs[q]? ≠ some (.ranging v m past) := by
  intro hq
  by_cases hpq : p = q
  · subst hpq
    rw [hp] at hq
    cases hq
    cases ha
  · exact absurd (h.exclusive _ _ _ _ hp hq hpq ha).2 (by simp [Proc.reading])

/-! ## A step of a call -/

theorem visits_set (hp : s.procs[p]? = some a) (x : Nat) :
    ({ s with procs := s.procs.set p b } : State).visits x = if x = p then b.visits else s.visits x := by
  by_cases hx : x = p
  · rw [if_pos hx, hx]
    exact visits_of_get (Pool.get_set_self hp)
  · rw [if_neg hx, State.visits, State.visits]
    exact congrArg (fun o => (Option.map Proc.visits o).getD []) (List.getElem?_set_ne (Ne.symm hx))

theorem past_set (hp : s.procs[p]? = some a) (x : Nat) :
    ({ s with procs := s.procs.set p b } : State).past x = if x = p then b.past else s.past x := by
  by_cases hx : x = p
  · rw [if_pos hx, hx]
    exact past_of_get (Pool.get_set_self hp)
  · rw [if_neg hx, State.past, State.past]
    exact congrArg (fun o => (Option.map Proc.past o).getD []) (List.getElem?_set_ne (Ne.symm hx))

theorem over_set (hp : s.procs[p]? = some a) (ha : ∀ m past, a ≠ .published m past) {x : Nat}
    (hx : x ∈ s.over) : x ∈ ({ s with procs := s.procs.set p b } : State).over := by
  obtain ⟨m, past, hx⟩ := mem_over.1 hx
  refine mem_over.2 ⟨m, past, Pool.get_set_ne hx ?_⟩
  rintro rfl
  rw [hp] at hx
  exact ha _ _ (Option.some.inj hx)

/-- What a page has not been reached by, it has not seen. -/
theorem Inv.not_mem_seen (h : Inv s) (hsub : s.subs[i]? = some sub) (hp : i ∉ s.visits p) :
    p ∉ sub.seen := by
  have hreached := h.reached p i sub hsub
  rw [if_neg hp, Subscriber.reached] at hreached
  exact List.count_eq_zero.1 (by omega)

/-- A call goes on, and the subscribers stay as they are. -/
theorem Inv.setProc (h : Inv s) (hp : s.procs[p]? = some a) (ha : ∀ m past, a ≠ .published m past)
    (hexclusive : Exclusive (s.procs.set p b))
    (hclosing : ∀ i, b = .closing i → ∀ sub, s.subs[i]? = some sub →
      sub.inMap = false ∧ sub.chan.closed = false)
    (hkeys : ∀ v m past, b = .ranging v m past → m = s.keys ∧ ∀ i ∈ v, i ∈ m)
    (hvisits : ∀ i, i ∈ b.visits ↔ i ∈ a.visits)
    (hpast : b.past = a.past ∨ a.visits = [] ∧ ∀ x ∈ b.past, x ∈ s.over) :
    Inv { s with procs := s.procs.set p b } := by
  have hsame : ∀ x i, i ∈ ({ s with procs := s.procs.set p b } : State).visits x ↔
      i ∈ s.visits x := by
    intro x i
    rw [visits_set hp]
    by_cases hx : x = p
    · rw [if_pos hx, hx, visits_of_get hp]
      exact hvisits i
    · rw [if_neg hx]
  refine ⟨h.calm, hexclusive, h.opened, fun q i hq => ?_, fun q v m past hq => ?_, fun q i hi => ?_,
    fun q i sub hsub => ?_, fun q x hx => ?_, fun i sub hsub => ?_, h.room⟩
  · rcases Pool.get_set hq with ⟨rfl, hb⟩ | ⟨-, hq⟩
    · exact hclosing i hb.symm
    · exact h.closing q i hq
  · rcases Pool.get_set hq with ⟨rfl, hb⟩ | ⟨-, hq⟩
    · exact hkeys v m past hb.symm
    · exact h.keys q v m past hq
  · exact h.bound q i ((hsame q i).1 hi)
  · rw [h.reached q i sub hsub]
    simp only [hsame]
  · refine over_set hp ha ?_
    rw [past_set hp] at hx
    split at hx
    next =>
      rcases hpast with hsamePast | ⟨-, hover⟩
      · rw [hsamePast, ← past_of_get hp] at hx
        exact h.past p x hx
      · exact hover x hx
    next => exact h.past q x hx
  · refine (h.order i sub hsub).imp_of_mem fun {x y} hx _ hxy => ?_
    rw [past_set hp]
    split
    next hxp =>
      rcases hpast with hsamePast | ⟨hnone, -⟩
      · rwa [hsamePast, ← past_of_get hp, ← hxp]
      · refine absurd hx (h.not_mem_seen hsub ?_)
        rw [hxp, visits_of_get hp, hnone]
        exact List.not_mem_nil
    next => exact hxy

theorem getD_start {f : Proc → List Nat} (procs : List Proc) (hb : f b = []) (x : Nat) :
    (((procs ++ [b])[x]?).map f).getD [] = ((procs[x]?).map f).getD [] := by
  by_cases hx : x < procs.length
  · rw [List.getElem?_append_left hx]
  · rw [List.getElem?_append_right (Nat.le_of_not_lt hx),
      List.getElem?_eq_none (Nat.le_of_not_lt hx)]
    cases x - procs.length with
    | zero => exact hb
    | succ n => rfl

/-- A new call. -/
theorem Inv.start (h : Inv s) (hb : b = .subscribe false ∨ (∃ i, b = .unsubscribe i false) ∨ b = .publish) :
    Inv { s with procs := s.procs ++ [b] } := by
  have hidle : b.writing = false ∧ b.reading = false ∧ b.visits = [] ∧ b.past = [] ∧
      (∀ i, b ≠ .closing i) ∧ ∀ v m past, b ≠ .ranging v m past := by
    rcases hb with rfl | ⟨i, rfl⟩ | rfl <;> exact ⟨rfl, rfl, rfl, rfl, nofun, nofun⟩
  obtain ⟨hwriting, hreading, hvisits, hpast, hclosing, hranging⟩ := hidle
  have hget : ∀ {x : Nat} {c : Proc}, (s.procs ++ [b])[x]? = some c → s.procs[x]? = some c ∨ c = b :=
    Pool.get_start
  have hsameVisits : ∀ x, ({ s with procs := s.procs ++ [b] } : State).visits x = s.visits x :=
    getD_start s.procs hvisits
  have hsamePast : ∀ x, ({ s with procs := s.procs ++ [b] } : State).past x = s.past x :=
    getD_start s.procs hpast
  refine ⟨h.calm, h.exclusive.start hwriting hreading, h.opened, fun q i hq => ?_,
    fun q v m past hq => ?_, fun q i hi => ?_, fun q i sub hsub => ?_, fun q x hx => ?_,
    fun i sub hsub => ?_, h.room⟩
  · rcases hget hq with hq | hq
    · exact h.closing q i hq
    · exact absurd hq.symm (hclosing i)
  · rcases hget hq with hq | hq
    · exact h.keys q v m past hq
    · exact absurd hq.symm (hranging v m past)
  · rw [hsameVisits] at hi
    exact h.bound q i hi
  · rw [hsameVisits]
    exact h.reached q i sub hsub
  · rw [hsamePast] at hx
    obtain ⟨m, past, hget⟩ := mem_over.1 (h.past q x hx)
    exact mem_over.2 ⟨m, past, Pool.get_start_of_get hget⟩
  · simp only [hsamePast]
    exact h.order i sub hsub

/-- A subscriber changes and has seen what it had. -/
theorem Inv.setSub {sub' : Subscriber} (h : Inv s) (hsub : s.subs[i]? = some sub)
    (hmap : sub'.inMap = sub.inMap ∨ ∀ (q : Nat) (v m past : List Nat), s.procs[q]? ≠ some (.ranging v m past))
    (hopened : sub'.inMap = true → sub'.chan.closed = false)
    (hclosing : ∀ q : Nat, s.procs[q]? = some (.closing i) → sub'.inMap = false ∧ sub'.chan.closed = false)
    (hseen : sub'.seen = sub.seen) (hmissed : sub'.missed = sub.missed)
    (hcap : sub'.chan.cap = sub.chan.cap) (hbuf : sub'.chan.buf.length ≤ sub.chan.buf.length) :
    Inv { s with subs := s.subs.set i sub' } := by
  have hget : ∀ {j : Nat} {r : Subscriber}, (s.subs.set i sub')[j]? = some r →
      j = i ∧ r = sub' ∨ j ≠ i ∧ s.subs[j]? = some r := Pool.get_set
  refine ⟨h.calm, h.exclusive, fun j r hr => ?_, fun q j hq r hr => ?_, fun q v m past hq => ?_,
    fun q j hj => ?_, fun q j r hr => ?_, h.past, fun j r hr => ?_, fun j r hr => ?_⟩
  · rcases hget hr with ⟨rfl, rfl⟩ | ⟨-, hr⟩
    · exact hopened
    · exact h.opened j r hr
  · rcases hget hr with ⟨rfl, rfl⟩ | ⟨-, hr⟩
    · exact hclosing q hq
    · exact h.closing q j hq r hr
  · obtain ⟨hm, hv⟩ := h.keys q v m past hq
    refine ⟨?_, hv⟩
    rcases hmap with hmap | hnone
    · rw [hm, State.keys, State.keys, List.length_set]
      refine List.filter_congr fun j _ => ?_
      by_cases hj : j = i
      · rw [hj, hsub, Pool.get_set_self hsub]
        exact hmap.symm
      · rw [List.getElem?_set_ne (Ne.symm hj)]
    · exact absurd hq (hnone q v m past)
  · show j < (s.subs.set i sub').length
    rw [List.length_set]
    exact h.bound q j hj
  · rcases hget hr with ⟨rfl, rfl⟩ | ⟨-, hr⟩
    · rw [Subscriber.reached, hseen, hmissed]
      exact h.reached q j sub hsub
    · exact h.reached q j r hr
  · rcases hget hr with ⟨rfl, rfl⟩ | ⟨-, hr⟩
    · rw [hseen]
      exact h.order j sub hsub
    · exact h.order j r hr
  · rcases hget hr with ⟨rfl, rfl⟩ | ⟨-, hr⟩
    · rw [hcap]
      have hroom := h.room j sub hsub
      exact ⟨hbuf.trans hroom.1, hroom.2⟩
    · exact h.room j r hr

/-- A subscriber more. -/
theorem Inv.addSub (h : Inv s)
    (hquiet : ∀ (q : Nat) (c : Proc), s.procs[q]? = some c → c.writing = false ∧ c.reading = false) :
    Inv { s with subs := s.subs ++ [Subscriber.make] } := by
  have hget : ∀ {j : Nat} {r : Subscriber}, (s.subs ++ [Subscriber.make])[j]? = some r →
      s.subs[j]? = some r ∨ (j = s.subs.length ∧ r = Subscriber.make) := by
    intro j r hr
    rw [List.getElem?_append] at hr
    split at hr
    next => exact Or.inl hr
    next hj =>
      have hzero : j - s.subs.length = 0 := by
        have := (List.getElem?_eq_some_iff.1 hr).1
        rw [List.length_singleton] at this
        omega
      rw [hzero] at hr
      exact Or.inr ⟨by omega, (Option.some.inj hr).symm⟩
  refine ⟨h.calm, h.exclusive, fun j r hr => ?_, fun q j hq r hr => ?_,
    fun q v m past hq => absurd (hquiet q _ hq).2 (by simp [Proc.reading]), fun q j hj => ?_,
    fun q j r hr => ?_, h.past, fun j r hr => ?_, fun j r hr => ?_⟩
  · rcases hget hr with hr | ⟨-, rfl⟩
    · exact h.opened j r hr
    · exact fun _ => rfl
  · rcases hget hr with hr | ⟨hj, rfl⟩
    · exact h.closing q j hq r hr
    · exact absurd (hquiet q _ hq).1 (by simp [Proc.writing])
  · show j < (s.subs ++ [Subscriber.make]).length
    rw [List.length_append]
    exact Nat.lt_add_right _ (h.bound q j hj)
  · rcases hget hr with hr | ⟨rfl, rfl⟩
    · exact h.reached q j r hr
    · exact (if_neg fun hmem => Nat.lt_irrefl _ (h.bound q _ hmem)).symm
  · rcases hget hr with hr | ⟨-, rfl⟩
    · exact h.order j r hr
    · exact List.Pairwise.nil
  · rcases hget hr with hr | ⟨-, rfl⟩
    · exact h.room j r hr
    · exact ⟨Nat.zero_le _, rfl⟩

/-- When the one that writes is done, nobody is inside. -/
theorem Inv.quiet (h : Inv s) (hp : s.procs[p]? = some a) (ha : a.writing = true) :
    ∀ (q : Nat) (c : Proc), (s.procs.set p .done)[q]? = some c → c.writing = false ∧ c.reading = false := by
  intro q c hq
  rcases Pool.get_set hq with ⟨-, rfl⟩ | ⟨hqp, hq⟩
  · exact ⟨rfl, rfl⟩
  · exact h.exclusive _ _ _ _ hp hq (Ne.symm hqp) ha

/-- A call is over, without a trace. -/
theorem Inv.setDone (h : Inv s) (hp : s.procs[p]? = some a) (hvisits : a.visits = [])
    (hpast : a.past = []) (ha : ∀ m past, a ≠ .published m past) :
    Inv { s with procs := s.procs.set p .done } :=
  h.setProc hp ha (h.exclusive.set hp nofun nofun) nofun nofun
    (fun i => by rw [hvisits]; exact Iff.rfl) (Or.inl hpast.symm)

theorem Inv.next (h : Inv s) (hp : s.procs[p]? = some a) (hs : s.next p a = some s') : Inv s' := by
  cases a with
  | subscribe inside =>
      cases inside with
      | false =>
          simp only [State.next] at hs
          split at hs
          next hlock =>
            cases hs
            exact h.setProc hp nofun (Exclusive.write hlock) nofun nofun (fun _ => Iff.rfl)
              (Or.inl rfl)
          next => cases hs
      | true =>
          cases hs
          exact (h.setDone hp rfl rfl nofun).addSub (h.quiet hp rfl)
  | unsubscribe i inside =>
      cases inside with
      | false =>
          simp only [State.next] at hs
          split at hs
          next hlock =>
            cases hs
            exact h.setProc hp nofun (Exclusive.write hlock) nofun nofun (fun _ => Iff.rfl)
              (Or.inl rfl)
          next => cases hs
      | true =>
          simp only [State.next] at hs
          split at hs
          next => cases hs
          next sub hsub =>
            split at hs
            next hmap =>
              cases hs
              have hopen := h.opened i sub hsub hmap
              have hout : Inv { s with subs := s.subs.set i { sub with inMap := false } } := by
                refine h.setSub hsub (Or.inr fun q v m past => h.not_ranging hp rfl) nofun
                  (fun _ _ => ⟨rfl, hopen⟩) rfl rfl rfl (Nat.le_refl _)
              refine hout.setProc hp nofun (hout.exclusive.set hp (fun _ => rfl) nofun) ?_ nofun
                (fun _ => Iff.rfl) (Or.inl rfl)
              intro j hj r hr
              cases hj
              rw [Pool.get_set_self hsub] at hr
              cases hr
              exact ⟨rfl, hopen⟩
            next =>
              cases hs
              exact h.setDone hp rfl rfl nofun
  | closing i =>
      simp only [State.next] at hs
      split at hs
      next => cases hs
      next sub hsub =>
        cases hs
        obtain ⟨hmap, hopen⟩ := h.closing p i hp sub hsub
        have hdone := h.setDone hp rfl rfl nofun
        have hclosed : Inv { s with
            subs := s.subs.set i { sub with chan := sub.chan.close }, procs := s.procs.set p .done } :=
          hdone.setSub hsub (Or.inl rfl) (fun hin => absurd (hmap.symm.trans hin) (by decide))
            (fun q hq => absurd (h.quiet hp rfl q _ hq).1 (by simp [Proc.writing]))
            rfl rfl rfl (Nat.le_refl _)
        rw [hopen, Bool.or_false]
        exact hclosed
  | publish =>
      simp only [State.next] at hs
      split at hs
      next hlock =>
        cases hs
        refine h.setProc hp nofun (Exclusive.read hlock rfl) nofun ?_ (fun _ => Iff.rfl)
          (Or.inr ⟨rfl, fun x hx => hx⟩)
        intro v m past heq
        cases heq
        exact ⟨rfl, nofun⟩
      next => cases hs
  | ranging v m past =>
      simp only [State.next] at hs
      split at hs
      next hall =>
        cases hs
        obtain ⟨hm, hv⟩ := h.keys p v m past hp
        refine h.setProc hp nofun (h.exclusive.set hp nofun nofun) nofun nofun (fun i => ?_)
          (Or.inl rfl)
        refine ⟨fun hi => ?_, hv i⟩
        rw [List.all_eq_true] at hall
        have hcontains := hall i (hm ▸ hi)
        rwa [List.contains_iff_mem] at hcontains
      next => cases hs
  | published m past => cases hs
  | done => cases hs

theorem Subscriber.offer_cases (sub : Subscriber) (p : Nat) :
    (sub.offer p).inMap = sub.inMap ∧ (sub.offer p).chan.closed = sub.chan.closed ∧
    (sub.offer p).chan.cap = sub.chan.cap ∧
    ((sub.offer p).seen = sub.seen ++ [p] ∧ (sub.offer p).missed = sub.missed ∧
        sub.chan.buf.length < sub.chan.cap ∧
        (sub.offer p).chan.buf.length = sub.chan.buf.length + 1 ∨
      (sub.offer p).seen = sub.seen ∧ (sub.offer p).missed = sub.missed ++ [p] ∧
        (sub.offer p).chan.buf = sub.chan.buf) := by
  rw [Subscriber.offer, Chan.send]
  by_cases hroom : sub.chan.buf.length < sub.chan.cap
  · rw [if_pos hroom]
    refine ⟨rfl, rfl, rfl, Or.inl ⟨?_, rfl, hroom, List.length_append⟩⟩
    exact (List.append_assoc _ _ _).symm
  · rw [if_neg hroom]
    exact ⟨rfl, rfl, rfl, Or.inr ⟨rfl, rfl, rfl⟩⟩

theorem Subscriber.reached_offer (sub : Subscriber) (p q : Nat) :
    (sub.offer p).reached q = sub.reached q + if q = p then 1 else 0 := by
  have hcount : List.count q [p] = if q = p then 1 else 0 := by
    rw [List.count_singleton]
    exact if_congr (beq_iff_eq.trans eq_comm) rfl rfl
  rw [Subscriber.reached, Subscriber.reached]
  obtain ⟨-, -, -, ⟨hseen, hmissed, -, -⟩ | ⟨hseen, hmissed, -⟩⟩ := sub.offer_cases p
  · rw [hseen, hmissed, List.count_append, hcount]
    omega
  · rw [hseen, hmissed, List.count_append, hcount]
    omega

theorem keys_set {sub' : Subscriber} (hsub : s.subs[i]? = some sub)
    (hmap : sub'.inMap = sub.inMap) (procs : List Proc) (panicked : Bool) :
    (⟨s.subs.set i sub', procs, panicked⟩ : State).keys = s.keys := by
  rw [State.keys, State.keys, List.length_set]
  refine List.filter_congr fun j _ => ?_
  by_cases hj : j = i
  · rw [hj, hsub, Pool.get_set_self hsub]
    exact hmap
  · rw [List.getElem?_set_ne (Ne.symm hj)]

/-- An event is offered to a key of the map. -/
theorem Inv.offer {v m past : List Nat} (h : Inv s) (hp : s.procs[p]? = some (.ranging v m past))
    (hsub : s.subs[i]? = some sub) (hmap : sub.inMap = true) (hnew : i ∉ v) :
    Inv ⟨s.subs.set i (sub.offer p), s.procs.set p (.ranging (i :: v) m past),
      s.panicked || sub.chan.closed⟩ := by
  obtain ⟨hin, hclosed, hcap, hseen⟩ := sub.offer_cases p
  obtain ⟨hkeys, hv⟩ := h.keys p v m past hp
  have hi : i ∈ m := hkeys ▸ mem_keys.2 ⟨sub, hsub, hmap⟩
  have hopen := h.opened i sub hsub hmap
  have hget : ∀ {j : Nat} {r : Subscriber}, (s.subs.set i (sub.offer p))[j]? = some r →
      j = i ∧ r = sub.offer p ∨ j ≠ i ∧ s.subs[j]? = some r := Pool.get_set
  have hvisits : ∀ x, (⟨s.subs.set i (sub.offer p), s.procs.set p (.ranging (i :: v) m past),
      s.panicked || sub.chan.closed⟩ : State).visits x = if x = p then i :: v else s.visits x :=
    visits_set hp
  have hpasts : ∀ x, (⟨s.subs.set i (sub.offer p), s.procs.set p (.ranging (i :: v) m past),
      s.panicked || sub.chan.closed⟩ : State).past x = s.past x := by
    intro x
    refine (past_set hp x).trans ?_
    split
    next hx => rw [hx, past_of_get hp]; rfl
    next => rfl
  refine ⟨by rw [h.calm, hopen]; rfl, h.exclusive.set hp nofun fun _ => rfl, fun j r hr => ?_,
    fun q j hq r hr => ?_, fun q v' m' past' hq => ?_, fun q j hj => ?_, fun q j r hr => ?_,
    fun q x hx => ?_, fun j r hr => ?_, fun j r hr => ?_⟩
  · rcases hget hr with ⟨rfl, rfl⟩ | ⟨-, hr⟩
    · exact fun _ => hclosed.trans hopen
    · exact h.opened j r hr
  · have hq' : s.procs[q]? = some (.closing j) := by
      rcases Pool.get_set hq with ⟨-, hbad⟩ | ⟨-, hq⟩
      · cases hbad
      · exact hq
    rcases hget hr with ⟨rfl, rfl⟩ | ⟨-, hr⟩
    · exact absurd (h.closing q j hq' sub hsub).1 (by rw [hmap]; decide)
    · exact h.closing q j hq' r hr
  · rw [keys_set hsub hin]
    rcases Pool.get_set hq with ⟨-, heq⟩ | ⟨-, hq⟩
    · cases heq
      exact ⟨hkeys, List.forall_mem_cons.2 ⟨hi, hv⟩⟩
    · exact h.keys q v' m' past' hq
  · show j < (s.subs.set i (sub.offer p)).length
    rw [List.length_set]
    rw [hvisits] at hj
    split at hj
    next =>
      rcases List.mem_cons.1 hj with rfl | hj
      · exact (List.getElem?_eq_some_iff.1 hsub).1
      · exact h.bound p j (by rwa [visits_of_get hp])
    next => exact h.bound q j hj
  · rw [hvisits]
    rcases hget hr with ⟨rfl, rfl⟩ | ⟨hji, hr⟩
    · rw [Subscriber.reached_offer, h.reached q j sub hsub]
      by_cases hq : q = p
      · rw [if_pos hq, if_pos hq, hq, visits_of_get hp, if_pos List.mem_cons_self]
        exact congrArg (· + 1) (if_neg hnew)
      · rw [if_neg hq, if_neg hq, Nat.add_zero]
    · rw [h.reached q j r hr]
      by_cases hq : q = p
      · rw [if_pos hq, hq, visits_of_get hp]
        exact if_congr (List.mem_cons.trans (or_iff_right hji)).symm rfl rfl
      · rw [if_neg hq]
  · rw [hpasts] at hx
    exact over_set hp nofun (h.past q x hx)
  · simp only [hpasts]
    rcases hget hr with ⟨rfl, rfl⟩ | ⟨-, hr⟩
    · have horder := h.order j sub hsub
      rcases hseen with ⟨hseen, -⟩ | ⟨hseen, -⟩
      · rw [hseen, List.pairwise_append]
        refine ⟨horder, List.pairwise_singleton _ _, fun x _ y hy hbefore => ?_⟩
        rw [List.mem_singleton.1 hy] at hbefore
        obtain ⟨m', past', hover⟩ := mem_over.1 (h.past x p hbefore)
        rw [hp] at hover
        cases hover
      · rwa [hseen]
    · exact h.order j r hr
  · rcases hget hr with ⟨rfl, rfl⟩ | ⟨-, hr⟩
    · obtain ⟨hle, hroom⟩ := h.room j sub hsub
      rw [hcap]
      rcases hseen with ⟨-, -, hlt, hbuf⟩ | ⟨-, -, hbuf⟩
      · rw [hbuf]
        exact ⟨hlt, hroom⟩
      · rw [hbuf]
        exact ⟨hle, hroom⟩
    · exact h.room j r hr

theorem Inv.step {c : Act} (h : Inv s) (hs : step s c = some s') : Inv s' := by
  cases c with
  | callSubscribe =>
      cases hs
      exact h.start (Or.inl rfl)
  | callUnsubscribe i =>
      cases hs
      exact h.start (Or.inr (Or.inl ⟨i, rfl⟩))
  | callPublish =>
      cases hs
      exact h.start (Or.inr (Or.inr rfl))
  | next p =>
      obtain ⟨a, hp, hnext⟩ := Option.bind_eq_some_iff.1 hs
      exact h.next hp hnext
  | offer p i =>
      simp only [EventBus.step] at hs
      split at hs
      next v m past sub hp hsub =>
        split at hs
        next hcond =>
          cases hs
          rw [Bool.and_eq_true, Bool.not_eq_true', ← Bool.not_eq_true, List.contains_iff_mem] at hcond
          exact h.offer hp hsub hcond.1 hcond.2
        next => cases hs
      next => cases hs
  | recv i =>
      simp only [EventBus.step] at hs
      split at hs
      next => cases hs
      next sub hsub =>
        split at hs
        next => cases hs
        next =>
          cases hs
          exact h
        next x chan hrecv =>
          cases hs
          rcases Chan.recv_eq_some hrecv with ⟨y, ys, hbuf, heq⟩ | ⟨-, -, heq⟩
          · cases heq
            refine h.setSub hsub (Or.inl rfl) (h.opened i sub hsub)
              (fun q hq => h.closing q i hq sub hsub) ?_ rfl rfl ?_
            · rw [Subscriber.seen, Subscriber.seen, hbuf]
              exact List.append_assoc _ _ _
            · rw [hbuf]
              exact Nat.le_succ _
          · cases heq

theorem inv_initial : Inv initial :=
  ⟨rfl, fun _ _ _ _ h => absurd h (by simp [initial]), fun _ _ h => absurd h (by simp [initial]),
    fun _ _ h => absurd h (by simp [initial]), fun _ _ _ _ h => absurd h (by simp [initial]),
    fun _ _ h => absurd h (by simp [initial, State.visits]), fun _ _ _ h => absurd h (by simp [initial]),
    fun _ _ h => absurd h (by simp [initial, State.past]), fun _ _ h => absurd h (by simp [initial]),
    fun _ _ h => absurd h (by simp [initial])⟩

end

end DazeApi.Channels.EventBus
