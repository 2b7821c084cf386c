/-
# Engine-wide collection pressure

The stores of one engine share a total of the bytes they have reserved and a mailbox each
(`gc_committed` and `gc_requests` of `src/engine.rs`).  A grant raises a store's reservation and
then the total; above the threshold it goes on to post to the mailboxes; a store takes its own
mark at a safe point and collects; a dropped store gives its reservation back.  A store runs on
one thread at a time, so a system of stores takes one atomic operation after another, each by one
store, in any interleaving.
-/
import SubmilliWasm.Exec.Growth

namespace SubmilliWasm

open Slots Fallible

/-! ## The shared state -/

/-- Where a store is between two atomic operations on what it shares. -/
inductive Phase where
  | idle
  /-- Its reservation is raised by `delta`, which the total does not count yet. -/
  | adding (delta : ℕ)
  /-- The total it has raised is above the threshold. -/
  | posting
  /-- It has taken its mark and is about to collect. -/
  | taken
  /-- Its reservation is given back; its fields, the mailbox among them, go next. -/
  | dropping
  deriving DecidableEq, Repr

/-- A store with its mailbox. -/
structure Member where
  store : Store
  gcRequest : Bool
  phase : Phase

/-- What an engine's stores share.  `gcRequests` holds weak references, so it may name stores
that are gone; a store's index is never used again. -/
structure EngineGc where
  collecting : Bool
  gcHeapReservation : ℕ
  gcMemoryThreshold : Option ℕ
  gcCommitted : ℕ
  gcRequests : List ℕ
  members : List (Option Member)

namespace Member

def reserved (m : Member) : ℕ := m.store.inner.gc.reserved

/-- Whether the live bytes are enough to bother with the engine's requests. -/
def footprintOverFloor (m : Member) : Bool := reserveBatch ≤ m.store.inner.gc.used

/-- What the total lacks of the reservation. -/
def inFlight (m : Member) : ℕ :=
  match m.phase with
  | .adding delta => delta
  | _ => 0

/-- What a live store has reserved; one being dropped counts no more. -/
def held (m : Member) : ℕ :=
  match m.phase with
  | .dropping => 0
  | _ => m.reserved

end Member

namespace EngineGc

def new (collecting : Bool) (gcHeapReservation : ℕ) (gcMemoryThreshold : Option ℕ) : EngineGc :=
  ⟨collecting, gcHeapReservation, gcMemoryThreshold, 0, [], []⟩

/-! ## Atomic operations -/

/-- `fetch_add` and `fetch_sub` on a `usize` wrap around. -/
def wrappingAdd (a b : ℕ) : ℕ := (a + b) % 2 ^ 64

def wrappingSub (a b : ℕ) : ℕ := (a + (2 ^ 64 - b % 2 ^ 64)) % 2 ^ 64

def overThreshold (g : EngineGc) (total : ℕ) : Bool := g.gcMemoryThreshold.any (· < total)

/-- Changes the member at `i`. -/
def setMember (g : EngineGc) (i : ℕ) (m : Option Member) : EngineGc :=
  { g with members := g.members.set i m }

/-- Stores `true` in one mailbox, if its store is there. -/
def postTo (members : List (Option Member)) (i : ℕ) : List (Option Member) :=
  match entry members i with
  | some m => members.set i (some { m with gcRequest := true })
  | none => members

/-- The loop over the mailboxes, which also forgets those whose store is gone.  It is taken as one
step: it runs under the lock of the mailboxes and writes each flag once, and a flag is read and
cleared by its own store only, so a store that looks meanwhile looks before its own flag is written
or after, and no step of another store depends on which. -/
def postAll (g : EngineGc) : EngineGc :=
  { g with
    members := g.gcRequests.foldl postTo g.members
    gcRequests := g.gcRequests.filter fun i => (entry g.members i).isSome }

/-- An atomic operation of one of the stores. -/
inductive Act where
  /-- A store is created and registers its mailbox. -/
  | newStore (types : TypeRegistry)
  | grant (i target : ℕ)
  /-- The total is raised by what a grant has added. -/
  | addGcCommitted (i : ℕ)
  | post (i : ℕ)
  /-- Anything else a store does, which leaves its reservation alone. -/
  | work (i : ℕ) (store : Store)
  /-- A safe point that looks at the mailbox. -/
  | serviceGcPressure (i : ℕ)
  | collect (i : ℕ) (roots : List (ℕ × RefKind))
  | subGcCommitted (i : ℕ)
  | dropFields (i : ℕ)

/-- The operations of the store at `i`, by its phase; `none` where it does something else next. -/
def stepOf (g : EngineGc) (i : ℕ) (m : Member) : Act → Option EngineGc
  | .grant _ target =>
    if m.phase = .idle ∧ m.reserved ≤ target then
      let (delta, store) := m.store.grant target
      some (g.setMember i (some { m with store, phase := .adding delta }))
    else none
  | .addGcCommitted _ =>
    match m.phase with
    | .adding delta =>
      let total := wrappingAdd g.gcCommitted delta
      let phase := if g.overThreshold total then Phase.posting else .idle
      some ({ g with gcCommitted := total }.setMember i (some { m with phase }))
    | _ => none
  | .post _ =>
    if m.phase = .posting then some (g.setMember i (some { m with phase := .idle })).postAll
    else none
  | .work _ store =>
    if m.phase = .idle ∧ store.inner.gc.reserved = m.reserved then
      some (g.setMember i (some { m with store }))
    else none
  | .serviceGcPressure _ =>
    -- Armed only for a tracing collector with a threshold.
    if m.phase = .idle ∧ m.store.inner.gc.collecting ∧ g.gcMemoryThreshold.isSome then
      if m.footprintOverFloor ∧ m.gcRequest then
        some (g.setMember i (some { m with gcRequest := false, phase := .taken }))
      else some g
    else none
  | .collect _ roots =>
    if m.phase = .taken then
      some (g.setMember i (some { m with store := (m.store.gcCollect roots).1, phase := .idle }))
    else none
  | .subGcCommitted _ =>
    if m.phase = .idle then
      some ({ g with gcCommitted := wrappingSub g.gcCommitted m.reserved }.setMember i
        (some { m with phase := .dropping }))
    else none
  | .dropFields _ => if m.phase = .dropping then some (g.setMember i none) else none
  | .newStore _ => none

/-- The store an operation is by. -/
def Act.actor : Act → Option ℕ
  | .newStore _ => none
  | .grant i _ | .addGcCommitted i | .post i | .work i _ | .serviceGcPressure i | .collect i _
  | .subGcCommitted i | .dropFields i => some i

def step (g : EngineGc) (a : Act) : Option EngineGc :=
  match a.actor, a with
  | none, .newStore types =>
    some { g with
      gcRequests := g.gcRequests ++ [g.members.length]
      members := g.members ++
        [some ⟨Store.new types g.collecting g.gcHeapReservation, false, .idle⟩] }
  | some i, a => (entry g.members i).bind fun m => g.stepOf i m a
  | none, _ => none

/-- The state after some operations, if each of them is what its store does next. -/
def run (g : EngineGc) : List Act → Option EngineGc
  | [] => some g
  | a :: as => (g.step a).bind fun g => g.run as

/-! ## Totals -/

/-- The reservations of the live stores. -/
def reservedTotal (g : EngineGc) : ℕ := total Member.held g.members

/-- What grants have added to reservations and not yet to the total. -/
def inFlightTotal (g : EngineGc) : ℕ := total Member.inFlight g.members

/-! ## What an operation does -/

/-- The operations, each with what it needs and what it changes. -/
inductive Stepped (g : EngineGc) : Act → EngineGc → Prop where
  | newStore (types : TypeRegistry) : Stepped g (.newStore types)
      { g with
        gcRequests := g.gcRequests ++ [g.members.length]
        members := g.members ++
          [some ⟨Store.new types g.collecting g.gcHeapReservation, false, .idle⟩] }
  | grant {i target : ℕ} {m : Member} (hm : entry g.members i = some m) (hp : m.phase = .idle)
      (hle : m.reserved ≤ target) : Stepped g (.grant i target)
      (g.setMember i (some { m with
        store := (m.store.grant target).2, phase := .adding (target - m.reserved) }))
  | addGcCommitted {i delta : ℕ} {m : Member} (hm : entry g.members i = some m)
      (hp : m.phase = .adding delta) {phase : Phase}
      (hphase : phase =
        if g.overThreshold (wrappingAdd g.gcCommitted delta) then .posting else .idle) :
      Stepped g (.addGcCommitted i)
      ({ g with gcCommitted := wrappingAdd g.gcCommitted delta }.setMember i
        (some { m with phase }))
  | post {i : ℕ} {m : Member} (hm : entry g.members i = some m) (hp : m.phase = .posting) :
      Stepped g (.post i) (g.setMember i (some { m with phase := .idle })).postAll
  | work {i : ℕ} {m : Member} {store : Store} (hm : entry g.members i = some m)
      (hp : m.phase = .idle) (hres : store.inner.gc.reserved = m.reserved) :
      Stepped g (.work i store) (g.setMember i (some { m with store }))
  | take {i : ℕ} {m : Member} (hm : entry g.members i = some m) (hp : m.phase = .idle)
      (hover : m.footprintOverFloor = true) (hmark : m.gcRequest = true) :
      Stepped g (.serviceGcPressure i)
      (g.setMember i (some { m with gcRequest := false, phase := .taken }))
  | pass {i : ℕ} {m : Member} (hm : entry g.members i = some m) (hp : m.phase = .idle) :
      Stepped g (.serviceGcPressure i) g
  | collect {i : ℕ} {m : Member} {roots : List (ℕ × RefKind)} (hm : entry g.members i = some m)
      (hp : m.phase = .taken) : Stepped g (.collect i roots)
      (g.setMember i (some { m with store := (m.store.gcCollect roots).1, phase := .idle }))
  | subGcCommitted {i : ℕ} {m : Member} (hm : entry g.members i = some m) (hp : m.phase = .idle) :
      Stepped g (.subGcCommitted i)
      ({ g with gcCommitted := wrappingSub g.gcCommitted m.reserved }.setMember i
        (some { m with phase := .dropping }))
  | dropFields {i : ℕ} {m : Member} (hm : entry g.members i = some m) (hp : m.phase = .dropping) :
      Stepped g (.dropFields i) (g.setMember i none)

theorem stepped_of_step {g g' : EngineGc} {a : Act} (h : g.step a = some g') : Stepped g a g' := by
  unfold step at h
  cases a with
  | newStore types =>
    obtain rfl := Option.some.inj h
    exact .newStore types
  | grant i target =>
    obtain ⟨m, hm, h⟩ := Option.bind_eq_some_iff.mp h
    simp only [stepOf] at h
    split at h
    · rename_i hc
      obtain rfl := Option.some.inj h
      exact .grant hm hc.1 hc.2
    · nomatch h
  | addGcCommitted i =>
    obtain ⟨m, hm, h⟩ := Option.bind_eq_some_iff.mp h
    simp only [stepOf] at h
    split at h
    · rename_i delta hp
      obtain rfl := Option.some.inj h
      exact .addGcCommitted hm hp rfl
    · nomatch h
  | post i =>
    obtain ⟨m, hm, h⟩ := Option.bind_eq_some_iff.mp h
    simp only [stepOf] at h
    split at h
    · rename_i hp
      obtain rfl := Option.some.inj h
      exact .post hm hp
    · nomatch h
  | work i store =>
    obtain ⟨m, hm, h⟩ := Option.bind_eq_some_iff.mp h
    simp only [stepOf] at h
    split at h
    · rename_i hc
      obtain rfl := Option.some.inj h
      exact .work hm hc.1 hc.2
    · nomatch h
  | serviceGcPressure i =>
    obtain ⟨m, hm, h⟩ := Option.bind_eq_some_iff.mp h
    simp only [stepOf] at h
    split at h
    · rename_i hc
      split at h
      · rename_i hd
        obtain rfl := Option.some.inj h
        exact .take hm hc.1 hd.1 hd.2
      · obtain rfl := Option.some.inj h
        exact .pass hm hc.1
    · nomatch h
  | collect i roots =>
    obtain ⟨m, hm, h⟩ := Option.bind_eq_some_iff.mp h
    simp only [stepOf] at h
    split at h
    · rename_i hp
      obtain rfl := Option.some.inj h
      exact .collect hm hp
    · nomatch h
  | subGcCommitted i =>
    obtain ⟨m, hm, h⟩ := Option.bind_eq_some_iff.mp h
    simp only [stepOf] at h
    split at h
    · rename_i hp
      obtain rfl := Option.some.inj h
      exact .subGcCommitted hm hp
    · nomatch h
  | dropFields i =>
    obtain ⟨m, hm, h⟩ := Option.bind_eq_some_iff.mp h
    simp only [stepOf] at h
    split at h
    · rename_i hp
      obtain rfl := Option.some.inj h
      exact .dropFields hm hp
    · nomatch h

/-! ## The mailboxes -/

theorem entry_postTo (members : List (Option Member)) (i j : ℕ) :
    entry (postTo members i) j =
      if j = i then (entry members j).map fun m => { m with gcRequest := true }
      else entry members j := by
  unfold postTo
  split
  · rename_i m hm
    rw [entry_set (lt_length_of_entry hm)]
    by_cases hj : j = i
    · subst hj
      rw [if_pos rfl, if_pos rfl, hm]
      rfl
    · rw [if_neg hj, if_neg hj]
  · rename_i hm
    by_cases hj : j = i
    · subst hj
      rw [if_pos rfl, hm]
      rfl
    · rw [if_neg hj]

theorem entry_foldl_postTo (is : List ℕ) (members : List (Option Member)) (j : ℕ) :
    entry (is.foldl postTo members) j =
      if j ∈ is then (entry members j).map fun m => { m with gcRequest := true }
      else entry members j := by
  induction is generalizing members with
  | nil => rfl
  | cons i is ih =>
    rw [List.foldl_cons, ih, entry_postTo]
    by_cases hj : j = i
    · subst hj
      simp only [List.mem_cons_self, if_true, Option.map_map]
      split <;> rfl
    · simp [hj]

/-- Posting keeps every weight that does not look at the mark. -/
theorem total_foldl_postTo {f : Member → ℕ} (hf : ∀ m, f { m with gcRequest := true } = f m)
    (is : List ℕ) (members : List (Option Member)) :
    total f (is.foldl postTo members) = total f members := by
  induction is generalizing members with
  | nil => rfl
  | cons i is ih =>
    rw [List.foldl_cons, ih]
    unfold postTo
    split
    · rename_i m hm
      have h := total_set f (lt_length_of_entry hm) (some { m with gcRequest := true })
      rw [hm] at h
      simp only [Option.elim_some, hf] at h
      omega
    · rfl

/-! ## The invariant -/

/-- What the total counts of a store. -/
def recorded (m : Member) : ℕ :=
  match m.phase with
  | .adding delta => m.reserved - delta
  | .dropping => 0
  | _ => m.reserved

/-- The total is what the stores have recorded, as a `usize`; a grant in progress is part of a
reservation; every store's mailbox is registered. -/
structure Shared (g : EngineGc) : Prop where
  committed : g.gcCommitted = total recorded g.members % 2 ^ 64
  adding : ∀ i m delta, entry g.members i = some m → m.phase = .adding delta →
    delta ≤ m.reserved
  registered : ∀ i m, entry g.members i = some m → i ∈ g.gcRequests

theorem shared_new (collecting : Bool) (gcHeapReservation : ℕ) (threshold : Option ℕ) :
    Shared (EngineGc.new collecting gcHeapReservation threshold) :=
  ⟨rfl, fun _ _ _ h => (nomatch h), fun _ _ h => (nomatch h)⟩

section

variable {g : EngineGc} {i : ℕ} {m m' : Member}

theorem entry_setMember (hm : entry g.members i = some m) (o : Option Member) (j : ℕ) :
    entry (g.setMember i o).members j = if j = i then o else entry g.members j :=
  entry_set (lt_length_of_entry hm) o j

/-- A member's change shows in a total as the difference of its weights. -/
theorem total_setMember (f : Member → ℕ) (hm : entry g.members i = some m) (o : Option Member) :
    total f (g.setMember i o).members + f m = total f g.members + o.elim 0 f := by
  have h := total_set f (lt_length_of_entry hm) o
  rw [hm] at h
  exact h

/-- A change of one member, with a total that follows what it has recorded. -/
theorem Shared.set {c : ℕ} {o : Option Member} (hs : Shared g) (hm : entry g.members i = some m)
    (hc : c = total recorded (g.setMember i o).members % 2 ^ 64)
    (hadd : ∀ m' delta, o = some m' → m'.phase = .adding delta → delta ≤ m'.reserved) :
    Shared ({ g with gcCommitted := c }.setMember i o) := by
  refine ⟨hc, fun j n delta hn hp => ?_, fun j n hn => ?_⟩
  · change entry (g.setMember i o).members j = some n at hn
    rw [entry_setMember hm] at hn
    split at hn
    · exact hadd n delta hn hp
    · exact hs.adding j n delta hn hp
  · change entry (g.setMember i o).members j = some n at hn
    rw [entry_setMember hm] at hn
    split at hn
    · rename_i hj
      exact hj ▸ hs.registered i m hm
    · exact hs.registered j n hn

/-- A change of one member that keeps what it has recorded. -/
theorem Shared.setMember (hs : Shared g) (hm : entry g.members i = some m)
    (hrec : recorded m' = recorded m)
    (hadd : ∀ delta, m'.phase = .adding delta → delta ≤ m'.reserved) :
    Shared (g.setMember i (some m')) := by
  refine hs.set (c := g.gcCommitted) hm ?_ fun n delta hn hp => ?_
  · have h := total_setMember recorded hm (some m')
    simp only [Option.elim_some, hrec] at h
    rw [hs.committed]
    congr 1
    omega
  · obtain rfl := Option.some.inj hn
    exact hadd delta hp

theorem Shared.postAll (hs : Shared g) : Shared g.postAll := by
  have hentry : ∀ {j n}, entry g.postAll.members j = some n →
      ∃ n', entry g.members j = some n' ∧ n = { n' with gcRequest := true } := by
    intro j n hn
    change entry (g.gcRequests.foldl postTo g.members) j = some n at hn
    rw [entry_foldl_postTo] at hn
    split at hn
    · obtain ⟨n', hn', rfl⟩ := Option.map_eq_some_iff.mp hn
      exact ⟨n', hn', rfl⟩
    · rename_i hj
      exact absurd (hs.registered j n hn) hj
  constructor
  · show g.gcCommitted = total recorded (g.gcRequests.foldl postTo g.members) % 2 ^ 64
    rw [total_foldl_postTo fun _ => rfl]
    exact hs.committed
  · intro j n delta hn hp
    obtain ⟨n', hn', rfl⟩ := hentry hn
    exact hs.adding j n' delta hn' hp
  · intro j n hn
    obtain ⟨n', hn', rfl⟩ := hentry hn
    exact List.mem_filter.mpr ⟨hs.registered j n' hn', by rw [hn']; rfl⟩

/-- A collection leaves the reservation alone. -/
theorem gcCollect_reserved (s : Store) (roots : List (ℕ × RefKind)) :
    (s.gcCollect roots).1.inner.gc.reserved = s.inner.gc.reserved := by
  unfold Store.gcCollect
  split
  · rename_i inner h
    exact (collect_sameBudget (Store.gcCollect_inner h)).reserved
  · rfl

/-- A new store has recorded nothing, and its mailbox is registered. -/
theorem Shared.newStore (hs : Shared g) (types : TypeRegistry) :
    Shared { g with
      gcRequests := g.gcRequests ++ [g.members.length]
      members := g.members ++
        [some ⟨Store.new types g.collecting g.gcHeapReservation, false, .idle⟩] } := by
  constructor
  · show g.gcCommitted = _ % 2 ^ 64
    rw [total_append, hs.committed]
    rfl
  · intro j n delta hn hp
    rw [entry_append] at hn
    split at hn
    · obtain rfl := Option.some.inj hn
      nomatch hp
    · exact hs.adding j n delta hn hp
  · intro j n hn
    rw [entry_append] at hn
    split at hn
    · rename_i hj
      exact hj ▸ List.mem_append_right _ (List.mem_singleton.mpr rfl)
    · exact List.mem_append_left _ (hs.registered j n hn)

/-- The total takes up what a grant has added. -/
theorem Shared.addGcCommitted {delta : ℕ} {phase : Phase} (hs : Shared g)
    (hm : entry g.members i = some m) (hp : m.phase = .adding delta)
    (hnext : phase = .posting ∨ phase = .idle) :
    Shared ({ g with gcCommitted := wrappingAdd g.gcCommitted delta }.setMember i
      (some { m with phase })) := by
  have hle := hs.adding i m delta hm hp
  have hrec : recorded { m with phase } = m.reserved := by
    rcases hnext with rfl | rfl <;> rfl
  have hrec' : recorded m = m.reserved - delta := by
    unfold recorded
    rw [hp]
  have htotal := total_setMember recorded hm (some { m with phase })
  simp only [Option.elim_some, hrec, hrec'] at htotal
  refine hs.set hm ?_ fun n delta' hn hp' => ?_
  · unfold wrappingAdd
    rw [hs.committed, Nat.mod_add_mod]
    congr 1
    omega
  · obtain rfl := Option.some.inj hn
    rcases hnext with rfl | rfl <;> exact (nomatch hp')

/-- A store about to be dropped takes its reservation out of the total. -/
theorem Shared.subGcCommitted (hs : Shared g) (hm : entry g.members i = some m)
    (hp : m.phase = .idle) :
    Shared ({ g with gcCommitted := wrappingSub g.gcCommitted m.reserved }.setMember i
      (some { m with phase := .dropping })) := by
  have hrec : recorded m = m.reserved := by
    unfold recorded
    rw [hp]
  have htotal := total_setMember recorded hm (some { m with phase := .dropping })
  rw [hrec] at htotal
  have hzero : (some { m with phase := .dropping }).elim 0 recorded = 0 := rfl
  rw [hzero] at htotal
  refine hs.set hm ?_ fun n delta hn hp' => ?_
  · unfold wrappingSub
    rw [hs.committed]
    omega
  · obtain rfl := Option.some.inj hn
    nomatch hp'

theorem Shared.dropFields (hs : Shared g) (hm : entry g.members i = some m)
    (hp : m.phase = .dropping) : Shared (g.setMember i none) := by
  have htotal := total_setMember recorded hm none
  have hzero : recorded m = 0 := by
    unfold recorded
    rw [hp]
  rw [hzero] at htotal
  refine hs.set (c := g.gcCommitted) hm ?_ fun n delta hn => (nomatch hn)
  rw [hs.committed]
  exact congrArg (· % 2 ^ 64) htotal.symm

/-- **The step lemma.** -/
theorem Shared.step {g' : EngineGc} {a : Act} (hs : Shared g) (h : Stepped g a g') :
    Shared g' := by
  cases h with
  | newStore types => exact hs.newStore types
  | @grant i target m hm hp hle =>
    refine hs.setMember hm ?_ ?_
    · show target - (target - m.reserved) = recorded m
      unfold recorded
      rw [hp]
      show _ = m.reserved
      omega
    · intro delta hd
      obtain rfl := Phase.adding.inj hd
      exact Nat.sub_le target m.reserved
  | addGcCommitted hm hp hphase =>
    refine hs.addGcCommitted hm hp ?_
    rw [hphase]
    split
    · exact Or.inl rfl
    · exact Or.inr rfl
  | post hm hp =>
    refine (hs.setMember hm ?_ ?_).postAll
    · unfold recorded
      rw [hp]
      rfl
    · intro _ h
      nomatch h
  | work hm hp hres =>
    refine hs.setMember hm ?_ fun delta h => ?_
    · unfold recorded
      rw [hp]
      exact hres
    · rw [hp] at h
      nomatch h
  | take hm hp _ _ =>
    refine hs.setMember hm ?_ fun _ h => (nomatch h)
    unfold recorded
    rw [hp]
    rfl
  | pass => exact hs
  | collect hm hp =>
    refine hs.setMember hm ?_ fun _ h => (nomatch h)
    unfold recorded
    rw [hp]
    exact gcCollect_reserved _ _
  | subGcCommitted hm hp => exact hs.subGcCommitted hm hp
  | dropFields hm hp => exact hs.dropFields hm hp

theorem Shared.run (hs : Shared g) (h : g.run as = some g') : Shared g' := by
  induction as generalizing g with
  | nil => exact Option.some.inj h ▸ hs
  | cons a as ih =>
    obtain ⟨g₁, h₁, h⟩ := Option.bind_eq_some_iff.mp h
    exact ih (hs.step (stepped_of_step h₁)) h

/-! ## The totals -/

theorem Shared.reservedTotal_eq (hs : Shared g) :
    g.reservedTotal = total recorded g.members + g.inFlightTotal := by
  refine total_add fun i m hm => ?_
  unfold Member.held recorded Member.inFlight
  cases hp : m.phase with
  | adding delta =>
    have := hs.adding i m delta hm hp
    show m.reserved = m.reserved - delta + delta
    omega
  | idle => rfl
  | posting => rfl
  | taken => rfl
  | dropping => rfl

/-- A store about to be dropped has recorded its whole reservation. -/
theorem Shared.reserved_le (hs : Shared g) (hm : entry g.members i = some m)
    (hp : m.phase = .idle) (hlt : g.reservedTotal < 2 ^ 64) : m.reserved ≤ g.gcCommitted := by
  have hle := le_total recorded hm
  have hrec : recorded m = m.reserved := by
    unfold recorded
    rw [hp]
  have htotal := hs.reservedTotal_eq
  rw [hrec] at hle
  rw [hs.committed, Nat.mod_eq_of_lt (by omega)]
  exact hle

/-! ## The marks -/

/-- A store that is not the one to take a step keeps its phase, and its mark if it is set. -/
theorem Stepped.frame {a : Act} (h : Stepped g a g') (ha : a.actor ≠ some i)
    (hm : entry g.members i = some m) :
    ∃ m', entry g'.members i = some m' ∧ m'.phase = m.phase ∧
      (m.gcRequest = true → m'.gcRequest = true) := by
  have hset : ∀ {g₁ : EngineGc} {j : ℕ} {n : Member} {o : Option Member},
      g₁.members = g.members → entry g.members j = some n → some j ≠ some i →
      entry (g₁.setMember j o).members i = some m := by
    intro g₁ j n o hg hn hj
    rw [entry_setMember (hg ▸ hn), if_neg fun h => hj (congrArg some h.symm), hg]
    exact hm
  cases h with
  | newStore types =>
    refine ⟨m, ?_, rfl, id⟩
    show entry (g.members ++ _) i = some m
    rw [entry_append, if_neg (Nat.ne_of_lt (lt_length_of_entry hm))]
    exact hm
  | grant hn => exact ⟨m, hset rfl hn ha, rfl, id⟩
  | addGcCommitted hn => exact ⟨m, hset rfl hn ha, rfl, id⟩
  | @post j n hn hp =>
    have hm' := hset (o := some { n with phase := .idle }) rfl hn ha
    show ∃ m', entry (g.gcRequests.foldl postTo
      (g.setMember j (some { n with phase := .idle })).members) i = some m' ∧ _
    rw [entry_foldl_postTo, hm']
    split
    · exact ⟨_, rfl, rfl, fun _ => rfl⟩
    · exact ⟨m, rfl, rfl, id⟩
  | work hn => exact ⟨m, hset rfl hn ha, rfl, id⟩
  | take hn => exact ⟨m, hset rfl hn ha, rfl, id⟩
  | pass => exact ⟨m, hm, rfl, id⟩
  | collect hn => exact ⟨m, hset rfl hn ha, rfl, id⟩
  | subGcCommitted hn => exact ⟨m, hset rfl hn ha, rfl, id⟩
  | dropFields hn => exact ⟨m, hset rfl hn ha, rfl, id⟩

/-- After a post every store is marked. -/
theorem Shared.post_marks {k : ℕ} (hs : Shared g) (h : Stepped g (.post k) g') {j : ℕ} {n : Member}
    (hn : entry g'.members j = some n) : n.gcRequest = true := by
  cases h with
  | post hm hp =>
    change entry (g.gcRequests.foldl postTo (g.setMember k _).members) j = some n at hn
    rw [entry_foldl_postTo] at hn
    split at hn
    · obtain ⟨n', -, rfl⟩ := Option.map_eq_some_iff.mp hn
      rfl
    · rename_i hj
      -- A store is registered for as long as it is there.
      rw [entry_setMember hm] at hn
      split at hn
      · rename_i hk
        exact absurd (hk ▸ hs.registered k _ hm) hj
      · exact absurd (hs.registered j n hn) hj

/-- The store at `i` is about to post. -/
def Posting (g : EngineGc) (i : ℕ) : Prop := ∃ m, entry g.members i = some m ∧ m.phase = .posting

/-- The store at `i` has taken its mark and not collected yet. -/
def Taken (g : EngineGc) (i : ℕ) : Prop := ∃ m, entry g.members i = some m ∧ m.phase = .taken

/-- What a store does next is told by its phase: one that is about to post posts. -/
theorem Stepped.of_posting {a : Act} (h : Stepped g a g') (ha : a.actor = some i)
    (hm : entry g.members i = some m) (hphase : m.phase = .posting) : a = .post i := by
  have hsame : ∀ {j n}, entry g.members j = some n → some j = some i → n.phase = .posting := by
    intro j n hn hj
    obtain rfl := Option.some.inj hj
    obtain rfl := Option.some.inj (hm.symm.trans hn)
    exact hphase
  cases h with
  | newStore => nomatch ha
  | post => exact congrArg Act.post (Option.some.inj ha)
  | grant hn hp | work hn hp | take hn hp | pass hn hp | collect hn hp | subGcCommitted hn hp
  | dropFields hn hp | addGcCommitted hn hp => exact (nomatch hp.symm.trans (hsame hn ha))

/-- One that has taken its mark collects. -/
theorem Stepped.of_taken {a : Act} (h : Stepped g a g') (ha : a.actor = some i)
    (hm : entry g.members i = some m) (hphase : m.phase = .taken) :
    ∃ roots, a = .collect i roots := by
  have hsame : ∀ {j n}, entry g.members j = some n → some j = some i → n.phase = .taken := by
    intro j n hn hj
    obtain rfl := Option.some.inj hj
    obtain rfl := Option.some.inj (hm.symm.trans hn)
    exact hphase
  cases h with
  | newStore => nomatch ha
  | collect => exact ⟨_, congrArg (Act.collect · _) (Option.some.inj ha)⟩
  | grant hn hp | work hn hp | take hn hp | pass hn hp | post hn hp | subGcCommitted hn hp
  | dropFields hn hp | addGcCommitted hn hp => exact (nomatch hp.symm.trans (hsame hn ha))

/-- A store's own step keeps its mark, unless it takes it over the floor or is dropped. -/
theorem Stepped.own {a : Act} (h : Stepped g a g') (ha : a.actor = some i)
    (hm : entry g.members i = some m) (hmark : m.gcRequest = true) :
    (∃ m', entry g'.members i = some m' ∧ m'.gcRequest = true) ∨ a = .dropFields i ∨
    (a = .serviceGcPressure i ∧ m.footprintOverFloor = true ∧ Taken g' i) := by
  have hsame : ∀ {j n}, entry g.members j = some n → some j = some i → n = m := by
    intro j n hn hj
    obtain rfl := Option.some.inj hj
    exact Option.some.inj (hn.symm.trans hm)
  have hkept : ∀ {j n}, entry g.members j = some n → some j = some i → n.gcRequest = true :=
    fun hn hj => (congrArg Member.gcRequest (hsame hn hj)).trans hmark
  have hset : ∀ {g₁ : EngineGc} {j : ℕ} {n : Member} {o : Option Member},
      g₁.members = g.members → entry g.members j = some n → some j = some i →
      entry (g₁.setMember j o).members i = o := by
    intro g₁ j n o hg hn hj
    obtain rfl := Option.some.inj hj
    exact (entry_setMember (hg ▸ hn) o j).trans (if_pos rfl)
  cases h with
  | newStore => nomatch ha
  | grant hn => exact Or.inl ⟨_, hset rfl hn ha, (hkept hn ha :)⟩
  | addGcCommitted hn => exact Or.inl ⟨_, hset rfl hn ha, (hkept hn ha :)⟩
  | @post j n hn hp =>
    have hr := @hset g j n (some { n with phase := .idle }) rfl hn ha
    refine Or.inl ?_
    show ∃ m', entry (g.gcRequests.foldl postTo
      (g.setMember j (some { n with phase := .idle })).members) i = some m' ∧ _
    rw [entry_foldl_postTo, hr]
    split
    · exact ⟨_, rfl, rfl⟩
    · exact ⟨_, rfl, (hkept hn ha :)⟩
  | work hn => exact Or.inl ⟨_, hset rfl hn ha, (hkept hn ha :)⟩
  | take hn hp hover =>
    exact Or.inr (Or.inr ⟨congrArg Act.serviceGcPressure (Option.some.inj ha),
      hsame hn ha ▸ hover, _, hset rfl hn ha, rfl⟩)
  | pass => exact Or.inl ⟨m, hm, hmark⟩
  | collect hn => exact Or.inl ⟨_, hset rfl hn ha, (hkept hn ha :)⟩
  | subGcCommitted hn => exact Or.inl ⟨_, hset rfl hn ha, (hkept hn ha :)⟩
  | dropFields => exact Or.inr (Or.inl (congrArg Act.dropFields (Option.some.inj ha)))

/-- A grant above the threshold is over only once its store has posted, which marks every
store. -/
theorem Shared.posts (hs : Shared g) (hp : Posting g i) (h : g.run as = some g') :
    Posting g' i ∨ ∃ as₁ as₂ g₁, as = as₁ ++ .post i :: as₂ ∧
      g.run (as₁ ++ [.post i]) = some g₁ ∧
      ∀ j n, entry g₁.members j = some n → n.gcRequest = true := by
  induction as generalizing g with
  | nil => exact Or.inl (Option.some.inj h ▸ hp)
  | cons a as ih =>
    obtain ⟨g₁, h₁, h⟩ := Option.bind_eq_some_iff.mp h
    have hstep := stepped_of_step h₁
    obtain ⟨m, hm, hphase⟩ := hp
    by_cases ha : a.actor = some i
    · obtain rfl := hstep.of_posting ha hm hphase
      refine Or.inr ⟨[], as, g₁, rfl, ?_, fun j n hn => hs.post_marks hstep hn⟩
      show (g.step _).bind _ = _
      rw [h₁]
      rfl
    · obtain ⟨m', hm', hphase', -⟩ := hstep.frame ha hm
      have hnext := ih (hs.step hstep) ⟨m', hm', hphase'.trans hphase⟩ h
      rcases hnext with hp | ⟨as₁, as₂, g₂, rfl, hr, hall⟩
      · exact Or.inl hp
      · refine Or.inr ⟨a :: as₁, as₂, g₂, rfl, ?_, hall⟩
        show (g.step a).bind _ = _
        rw [h₁]
        exact hr

/-- A store that has taken its mark collects before anything else. -/
theorem collects_of_taken (ht : Taken g i) (h : g.run as = some g') :
    Taken g' i ∨ ∃ roots, Act.collect i roots ∈ as := by
  induction as generalizing g with
  | nil => exact Or.inl (Option.some.inj h ▸ ht)
  | cons a as ih =>
    obtain ⟨g₁, h₁, h⟩ := Option.bind_eq_some_iff.mp h
    have hstep := stepped_of_step h₁
    obtain ⟨m, hm, hphase⟩ := ht
    by_cases ha : a.actor = some i
    · obtain ⟨roots, rfl⟩ := hstep.of_taken ha hm hphase
      exact Or.inr ⟨roots, List.mem_cons_self⟩
    · obtain ⟨m', hm', hphase', -⟩ := hstep.frame ha hm
      exact (ih ⟨m', hm', hphase'.trans hphase⟩ h).imp id
        fun ⟨roots, hr⟩ => ⟨roots, List.mem_cons_of_mem a hr⟩

/-- In the run `as` from `g` the store at `i` takes its mark at a safe point with its footprint
over the floor, and collects for it before anything else. -/
def CollectsFor (g : EngineGc) (as : List Act) (i : ℕ) : Prop :=
  ∃ as₁ as₂ g₁ m g', as = as₁ ++ .serviceGcPressure i :: as₂ ∧ g.run as₁ = some g₁ ∧
    entry g₁.members i = some m ∧ m.footprintOverFloor = true ∧ g.run as = some g' ∧
    (Taken g' i ∨ ∃ roots, Act.collect i roots ∈ as₂)

/-- A mark stays until its store collects for it or is gone. -/
theorem mark_stays (hm : entry g.members i = some m) (hmark : m.gcRequest = true)
    (h : g.run as = some g') :
    (∃ m', entry g'.members i = some m' ∧ m'.gcRequest = true) ∨ Act.dropFields i ∈ as ∨
    CollectsFor g as i := by
  induction as generalizing g m with
  | nil => exact Or.inl ⟨m, Option.some.inj h ▸ hm, hmark⟩
  | cons a as ih =>
    obtain ⟨g₁, h₁, hrest⟩ := Option.bind_eq_some_iff.mp h
    have hstep := stepped_of_step h₁
    have hkept : (∃ m', entry g₁.members i = some m' ∧ m'.gcRequest = true) →
        (∃ m', entry g'.members i = some m' ∧ m'.gcRequest = true) ∨
          Act.dropFields i ∈ a :: as ∨ CollectsFor g (a :: as) i := by
      rintro ⟨m', hm', hmark'⟩
      rcases ih hm' hmark' hrest with hk | hd | ⟨as₁, as₂, g₂, n, g₃, rfl, hr, hn, hover, hr', hc⟩
      · exact Or.inl hk
      · exact Or.inr (Or.inl (List.mem_cons_of_mem a hd))
      · refine Or.inr (Or.inr ⟨a :: as₁, as₂, g₂, n, g₃, rfl, ?_, hn, hover, ?_, hc⟩)
        · show (g.step a).bind _ = _
          rw [h₁]
          exact hr
        · show (g.step a).bind _ = _
          rw [h₁]
          exact hr'
    by_cases ha : a.actor = some i
    · rcases hstep.own ha hm hmark with hk | rfl | ⟨rfl, hover, ht⟩
      · exact hkept hk
      · exact Or.inr (Or.inl List.mem_cons_self)
      · exact Or.inr (Or.inr ⟨[], as, g, m, g', rfl, rfl, hm, hover, h,
          collects_of_taken ht hrest⟩)
    · obtain ⟨m', hm', -, hmark'⟩ := hstep.frame ha hm
      exact hkept ⟨m', hm', hmark' hmark⟩

/-- Taking a mark leaves every other store as it is. -/
theorem Stepped.take_own (h : Stepped g (.serviceGcPressure i) g') {j : ℕ} (hj : j ≠ i) :
    entry g'.members j = entry g.members j := by
  cases h with
  | take hm => rw [entry_setMember hm, if_neg hj]
  | pass => rfl

end

/-! ## Pressure accounting -/

/-- What holds of the stores of an engine at any moment and from then on. -/
structure PressureAccounted (g : EngineGc) : Prop where
  /-- The total is the live stores' reservations, less what grants in progress have yet to
  record. -/
  inFlight_le : g.inFlightTotal ≤ g.reservedTotal
  committed : g.gcCommitted = (g.reservedTotal - g.inFlightTotal) % 2 ^ 64
  /-- Giving a reservation back does not underflow. -/
  noUnderflow : ∀ i m g', entry g.members i = some m → g.step (.subGcCommitted i) = some g' →
    g.reservedTotal < 2 ^ 64 →
      m.reserved ≤ g.gcCommitted ∧ g'.gcCommitted = g.gcCommitted - m.reserved
  /-- A grant that takes the total above the threshold goes on to mark every store. -/
  posts : ∀ i g₁, g.step (.addGcCommitted i) = some g₁ → g.overThreshold g₁.gcCommitted = true →
    ∀ as g₂, g₁.run as = some g₂ → Posting g₂ i ∨ ∃ as₁ as₂ g₃, as = as₁ ++ .post i :: as₂ ∧
      g₁.run (as₁ ++ [.post i]) = some g₃ ∧
      ∀ j n, entry g₃.members j = some n → n.gcRequest = true
  /-- A mark stays until its own store collects for it, or is dropped. -/
  stays : ∀ i m as g', entry g.members i = some m → m.gcRequest = true → g.run as = some g' →
    (∃ m', entry g'.members i = some m' ∧ m'.gcRequest = true) ∨ Act.dropFields i ∈ as ∨
      CollectsFor g as i
  /-- A store that takes its mark leaves the others' alone. -/
  own : ∀ i g', g.step (.serviceGcPressure i) = some g' → ∀ j, j ≠ i →
    entry g'.members j = entry g.members j

theorem Shared.accounted {g : EngineGc} (hs : Shared g) : PressureAccounted g := by
  have htotal := hs.reservedTotal_eq
  refine ⟨by omega, ?_, ?_, ?_, fun i m as g' hm hmark h => mark_stays hm hmark h,
    fun i g' h j hj => (stepped_of_step h).take_own hj⟩
  · rw [hs.committed, htotal, Nat.add_sub_cancel]
  · intro i m g' hm h hlt
    cases stepped_of_step h with
    | @subGcCommitted _ n hn hp =>
      obtain rfl := Option.some.inj (hn.symm.trans hm)
      have hle := hs.reserved_le hn hp hlt
      refine ⟨hle, ?_⟩
      have hcommitted : g.gcCommitted < 2 ^ 64 := by
        rw [hs.committed]
        exact Nat.mod_lt _ (by decide)
      show wrappingSub g.gcCommitted n.reserved = g.gcCommitted - n.reserved
      unfold wrappingSub
      omega
  · intro i g₁ h hover as g₂ hrun
    have hstep := stepped_of_step h
    refine (hs.step hstep).posts ?_ hrun
    cases hstep with
    | @addGcCommitted _ delta m hm hp phase hphase =>
      refine ⟨_, (entry_setMember hm _ i).trans (if_pos rfl), ?_⟩
      rw [hphase]
      exact if_pos hover

/-- **Pressure accounting.**  Whatever the stores of an engine do, in any interleaving, the
committed total is what they have reserved, and the marks are posted, kept and taken as the
engine's pressure axis needs it. -/
theorem pressure_accounted (collecting : Bool) (gcHeapReservation : ℕ) (threshold : Option ℕ)
    {as : List Act} {g : EngineGc}
    (h : (EngineGc.new collecting gcHeapReservation threshold).run as = some g) :
    PressureAccounted g :=
  ((shared_new collecting gcHeapReservation threshold).run h).accounted

/-- Two stores: the first goes over the threshold, the second is dropped. -/
def pairActs : List Act :=
  [.newStore .empty, .newStore .empty, .grant 0 2000, .addGcCommitted 0, .grant 1 500, .post 0,
    .addGcCommitted 1, .post 1, .subGcCommitted 1]

theorem pressure_accounted_pair :
    ∃ g, (EngineGc.new true 0 (some 1000)).run pairActs = some g ∧ PressureAccounted g := by
  have hrun : ((EngineGc.new true 0 (some 1000)).run pairActs).isSome = true := by decide
  obtain ⟨g, hg⟩ := Option.isSome_iff_exists.mp hrun
  exact ⟨g, hg, pressure_accounted true 0 (some 1000) hg⟩

end EngineGc

end SubmilliWasm
