import G2way.Lib.Run
import G2way.Lib.Text
import Mathlib.Algebra.Group.Nat.Defs
import Mathlib.Data.List.AList

/-!
# The in-memory map of values

`get`, `set`, `delete` and `scan_prefix` of `MemoryStorage`
(`g2-storage/src/memory.rs`): one hash map behind a read-write lock, whose entries
may have a time to live. An expired entry stays in the map until a `get` finds it:
"expired: fall through to remove it".

## The model

A call reads the clock before it waits for the lock, and `get` gives up the read
lock before it asks for the write lock. So a call is a `Stage`: what it will do
under the lock it waits for, with the clock reading it has made. Any number of calls
are under way at once; a step of the system lets time pass, starts a call, or runs
what one call does under its lock (`Act`). Times and durations are in nanoseconds.

## What is proved

`Consistent` relates the map to the last `insert` or `remove` of each key: the map
holds nothing else, and it lacks that entry only when the entry has expired. A step
keeps it, since no clock reading is ahead of the clock. So in every interleaving a
live value is found, a value found is the last one stored, and eviction removes only
what has expired (`eviction_faithful`).
-/

namespace G2way.Storage

open G2way.Lib

/-- The instants there are: the seconds of an `i64`, and their nanoseconds. -/
def instantBound : ℕ := 2 ^ 63 * 10 ^ 9

/-- `Instant + Duration`; `none` is the panic. -/
def instantAdd (now d : ℕ) : Option ℕ := if now + d < instantBound then some (now + d) else none

/-- `Entry`. -/
structure Entry where
  /-- The value. -/
  value : String
  /-- When it expires, if ever. -/
  expiresAt : Option ℕ
  deriving DecidableEq, Repr

/-- `is_expired`: at the expiry instant it is. -/
def Entry.isExpired (e : Entry) (now : ℕ) : Bool := e.expiresAt.any (· ≤ now)

/-- What has expired stays so. -/
theorem Entry.isExpired_mono {e : Entry} {now later : ℕ} (h : now ≤ later) (hexp : e.isExpired now = true) :
    e.isExpired later = true := by
  unfold Entry.isExpired at *
  cases hat : e.expiresAt with
  | none => simp [hat] at hexp
  | some t =>
    simp only [hat, Option.any_some, decide_eq_true_eq] at hexp ⊢
    omega

theorem Entry.isExpired_false_of_le {e : Entry} {now later : ℕ} (h : now ≤ later)
    (hlive : e.isExpired later = false) : e.isExpired now = false := by
  cases hexp : e.isExpired now with
  | false => rfl
  | true => rw [Entry.isExpired_mono h hexp] at hlive; exact hlive

/-- `HashMap<String, Entry>`. -/
abbrev Table : Type := AList fun _ : String => Entry

/-- The keys that `scan_prefix` collects. -/
def Table.scan (map : Table) (pre : String) (now : ℕ) : List String :=
  (map.entries.filter fun p => Text.startsWith pre p.1 && !p.2.isExpired now).map Sigma.fst

/-- A scan finds the keys with the prefix that have an entry unexpired at its reading. -/
theorem Table.mem_scan {map : Table} {pre key : String} {now : ℕ} :
    key ∈ map.scan pre now ↔
      Text.startsWith pre key = true ∧ ∃ e, map.lookup key = some e ∧ e.isExpired now = false := by
  rw [Table.scan, List.mem_map]
  constructor
  · rintro ⟨⟨k, e⟩, hmem, rfl⟩
    rw [List.mem_filter, Bool.and_eq_true, Bool.not_eq_true'] at hmem
    exact ⟨hmem.2.1, e, AList.mem_lookup_iff.mpr hmem.1, hmem.2.2⟩
  · rintro ⟨hpre, e, he, hlive⟩
    refine ⟨⟨key, e⟩, ?_, rfl⟩
    rw [List.mem_filter, Bool.and_eq_true, Bool.not_eq_true']
    exact ⟨AList.mem_lookup_iff.mp he, hpre, hlive⟩

namespace TtlMap

/-- A call. -/
inductive Call where
  | get (key : String)
  | set (key value : String) (ttl : Option ℕ)
  | delete (key : String)
  | scanPrefix (pre : String)
  deriving DecidableEq, Repr

/-- What a call comes to. -/
inductive Answer where
  | got (value : Option String)
  | stored
  | removed (live : Bool)
  | listed (keys : List String)
  | panicked
  deriving DecidableEq, Repr

/-- Where a call stands. -/
inductive Stage where
  /-- `get`, before its read lock. -/
  | looking (key : String) (now : ℕ)
  /-- `get` that found an expired entry, before its write lock. -/
  | evicting (key : String) (now : ℕ)
  /-- `set`, before its write lock. -/
  | storing (key : String) (entry : Entry)
  /-- `delete`, before its write lock. -/
  | removing (key : String) (now : ℕ)
  /-- `scan_prefix`, before its read lock. -/
  | scanning (pre : String) (now : ℕ)
  | done (answer : Answer)
  deriving DecidableEq, Repr

/-- What a call does before it waits for a lock: it reads the clock. A `set` that cannot write its
expiry down panics. -/
def Call.begin (clock : ℕ) : Call → Stage
  | .get key => .looking key clock
  | .set key value none => .storing key ⟨value, none⟩
  | .set key value (some ttl) =>
    match instantAdd clock ttl with
    | some expiry => .storing key ⟨value, some expiry⟩
    | none => .done .panicked
  | .delete key => .removing key clock
  | .scanPrefix pre => .scanning pre clock

/-- What a call does under the lock it waits for. -/
def Stage.run (map : Table) : Stage → Option (Stage × Table)
  | .looking key now =>
    match map.lookup key with
    | none => some (.done (.got none), map)
    | some e => if e.isExpired now then some (.evicting key now, map) else some (.done (.got (some e.value)), map)
  | .evicting key now =>
    -- the entry may be another one by now, or gone
    some (.done (.got none), if (map.lookup key).any (Entry.isExpired · now) then map.erase key else map)
  | .storing key entry => some (.done .stored, map.insert key entry)
  | .removing key now => some (.done (.removed ((map.lookup key).any fun e => !e.isExpired now)), map.erase key)
  | .scanning pre now => some (.done (.listed (map.scan pre now)), map)
  | .done _ => none

/-- The map, the clock and the calls under way. -/
structure Sys where
  clock : ℕ
  map : Table
  calls : ℕ → Option Stage

/-- `MemoryStorage::new`, at a time. -/
def Sys.init (clock : ℕ) : Sys := ⟨clock, ∅, fun _ => none⟩

/-- A step of the system. -/
inductive Act where
  /-- Time passes. -/
  | tick (d : ℕ)
  /-- A call is made, under a name of its own. -/
  | start (i : ℕ) (call : Call)
  /-- A call gets the lock it waits for, and gives it up. -/
  | lock (i : ℕ)
  deriving DecidableEq, Repr

/-- The state after a step. -/
def step (s : Sys) : Act → Option Sys
  | .tick d => some { s with clock := s.clock + d }
  | .start i call =>
    match s.calls i with
    | none => some { s with calls := Function.update s.calls i (some (call.begin s.clock)) }
    | some _ => none
  | .lock i =>
    match s.calls i with
    | none => none
    | some stage => (stage.run s.map).map fun p => ⟨s.clock, p.2, Function.update s.calls i (some p.1)⟩

section

variable {s t : Sys} {a : Act}

/-- What a step can do. -/
theorem step_cases (h : step s a = some t) :
    (∃ d, a = .tick d ∧ t = { s with clock := s.clock + d }) ∨
      (∃ i call, a = .start i call ∧ s.calls i = none ∧
        t = { s with calls := Function.update s.calls i (some (call.begin s.clock)) }) ∨
      ∃ i stage stage' map', a = .lock i ∧ s.calls i = some stage ∧ stage.run s.map = some (stage', map') ∧
        t = ⟨s.clock, map', Function.update s.calls i (some stage')⟩ := by
  cases a with
  | tick d => exact .inl ⟨d, rfl, (Option.some.inj h).symm⟩
  | start i call =>
    cases hi : s.calls i with
    | none =>
      simp only [step, hi, Option.some.injEq] at h
      exact .inr (.inl ⟨i, call, rfl, hi, h.symm⟩)
    | some stage => simp [step, hi] at h
  | lock i =>
    cases hi : s.calls i with
    | none => simp [step, hi] at h
    | some stage =>
      simp only [step, hi] at h
      obtain ⟨⟨stage', map'⟩, hrun, rfl⟩ := Option.map_eq_some_iff.mp h
      exact .inr (.inr ⟨i, stage, stage', map', rfl, hi, hrun, rfl⟩)

end

/-! ### The last write -/

/-- What a call inserts at a key, or that it removes what is there. Eviction is no such step. -/
def Stage.writes (key : String) : Stage → Option (Option Entry)
  | .storing k entry => if k = key then some (some entry) else none
  | .removing k _ => if k = key then some none else none
  | _ => none

/-- What a step writes at a key. -/
def writes (key : String) (ev : Event Sys Act) : Option (Option Entry) :=
  match ev.act with
  | .lock i => (ev.pre.calls i).bind (Stage.writes key)
  | _ => none

/-- The last write at a key. -/
def lastWrite (key : String) (past : List (Event Sys Act)) : Option (Option Entry) :=
  past.reverse.findSome? (writes key)

theorem lastWrite_concat (key : String) (past : List (Event Sys Act)) (ev : Event Sys Act) :
    lastWrite key (past ++ [ev]) = (writes key ev).or (lastWrite key past) := by
  rw [lastWrite, List.reverse_append, List.reverse_singleton, List.singleton_append, List.findSome?_cons]
  cases writes key ev <;> rfl

/-- **What a call does to a key under its lock**: what it writes, or nothing, but that it may evict
an entry that its reading finds expired. -/
theorem Stage.run_lookup {stage stage' : Stage} {map map' : Table} (h : stage.run map = some (stage', map'))
    (key : String) :
    (∃ w, stage.writes key = some w ∧ map'.lookup key = w) ∨
      stage.writes key = none ∧ map'.lookup key = map.lookup key ∨
      stage.writes key = none ∧ ∃ now e, stage = .evicting key now ∧ map.lookup key = some e ∧
        e.isExpired now = true ∧ map'.lookup key = none := by
  cases stage with
  | looking k now =>
    refine .inr (.inl ⟨rfl, ?_⟩)
    simp only [run] at h
    split at h
    · cases h
      rfl
    · split at h <;> (cases h; rfl)
  | evicting k now =>
    simp only [run, Option.some.injEq, Prod.mk.injEq] at h
    obtain ⟨-, rfl⟩ := h
    split_ifs with hexp
    · by_cases hk : key = k
      · subst hk
        cases he : map.lookup key with
        | none => simp [he] at hexp
        | some e =>
          rw [he, Option.any_some] at hexp
          exact .inr (.inr ⟨rfl, now, e, rfl, rfl, hexp, AList.lookup_erase _ _⟩)
      · exact .inr (.inl ⟨rfl, AList.lookup_erase_ne hk⟩)
    · exact .inr (.inl ⟨rfl, rfl⟩)
  | storing k entry =>
    cases h
    by_cases hk : k = key
    · subst hk
      exact .inl ⟨some entry, if_pos rfl, AList.lookup_insert _⟩
    · exact .inr (.inl ⟨if_neg hk, AList.lookup_insert_ne (Ne.symm hk)⟩)
  | removing k now =>
    cases h
    by_cases hk : k = key
    · subst hk
      exact .inl ⟨none, if_pos rfl, AList.lookup_erase _ _⟩
    · exact .inr (.inl ⟨if_neg hk, AList.lookup_erase_ne (Ne.symm hk)⟩)
  | scanning pre now =>
    cases h
    exact .inr (.inl ⟨rfl, rfl⟩)
  | done answer => cases h

/-! ### Clock readings -/

/-- The clock reading a call waits with, and the call. -/
def Stage.reading : Stage → Option (Call × ℕ)
  | .looking key now => some (.get key, now)
  | .evicting key now => some (.get key, now)
  | .removing key now => some (.delete key, now)
  | .scanning pre now => some (.scanPrefix pre, now)
  | _ => none

theorem Call.reading_begin {call call' : Call} {clock now : ℕ} (h : (call.begin clock).reading = some (call', now)) :
    call' = call ∧ now = clock := by
  cases call with
  | get key => cases h; exact ⟨rfl, rfl⟩
  | set key value ttl =>
    cases ttl with
    | none => cases h
    | some ttl => cases hadd : instantAdd clock ttl <;> simp [begin, hadd, Stage.reading] at h
  | delete key => cases h; exact ⟨rfl, rfl⟩
  | scanPrefix pre => cases h; exact ⟨rfl, rfl⟩

/-- A call goes on with the reading it has. -/
theorem Stage.reading_run {stage stage' : Stage} {map map' : Table} {r : Call × ℕ}
    (h : stage.run map = some (stage', map')) (hr : stage'.reading = some r) : stage.reading = some r := by
  cases stage with
  | looking k now =>
    simp only [run] at h
    split at h
    · cases h; cases hr
    · split at h
      · cases h; exact hr
      · cases h; cases hr
  | evicting k now => cases h; cases hr
  | storing k entry => cases h; cases hr
  | removing k now => cases h; cases hr
  | scanning pre now => cases h; cases hr
  | done answer => cases h

/-! ### Every interleaving -/

/-- The steps taken so far, and the state they lead to. -/
structure Consistent (past : List (Event Sys Act)) (s : Sys) : Prop where
  /-- The map holds what was written last. -/
  held : ∀ key e, s.map.lookup key = some e → lastWrite key past = some (some e)
  /-- What was written last is in the map, unless it has expired. -/
  kept : ∀ key e, lastWrite key past = some (some e) → e.isExpired s.clock = false → s.map.lookup key = some e
  /-- A clock reading was made when the call was, and is not ahead of the clock. -/
  begun : ∀ i stage call now, s.calls i = some stage → stage.reading = some (call, now) →
    now ≤ s.clock ∧ ∃ ev ∈ past, ev.act = .start i call ∧ ev.pre.clock = now

theorem Consistent.init (clock : ℕ) : Consistent [] (Sys.init clock) where
  held key e h := by cases h
  kept key e h := by cases h
  begun i stage call now h := by cases h

section

variable {past : List (Event Sys Act)} {s t : Sys} {a : Act} {i : ℕ} {stage stage' : Stage} {map' : Table}

/-- Running a call under its lock keeps the map in step with the last writes. -/
theorem Consistent.run_held (h : Consistent past s)
    (hrun : stage.run s.map = some (stage', map')) {key : String} {e : Entry} (he : map'.lookup key = some e) :
    (stage.writes key).or (lastWrite key past) = some (some e) := by
  obtain ⟨w, hw, hlook⟩ | ⟨hw, hlook⟩ | ⟨hw, now, e', -, -, -, hlook⟩ := Stage.run_lookup hrun key
  · rw [hw, Option.some_or, ← hlook, he]
  · rw [hw, Option.none_or]
    exact h.held key e (hlook ▸ he)
  · rw [hlook] at he
    cases he

theorem Consistent.run_kept (h : Consistent past s) (hi : s.calls i = some stage)
    (hrun : stage.run s.map = some (stage', map')) {key : String} {e : Entry}
    (he : (stage.writes key).or (lastWrite key past) = some (some e)) (hlive : e.isExpired s.clock = false) :
    map'.lookup key = some e := by
  obtain ⟨w, hw, hlook⟩ | ⟨hw, hlook⟩ | ⟨hw, now, e', rfl, hmap, hexp, -⟩ := Stage.run_lookup hrun key
  · rw [hw, Option.some_or, Option.some.injEq] at he
    rw [hlook, he]
  · rw [hw, Option.none_or] at he
    rw [hlook]
    exact h.kept key e he hlive
  · -- the entry that is evicted would be this one, and it has expired
    rw [hw, Option.none_or] at he
    have hsame : e' = e := by
      have := h.held key e' hmap
      rw [he] at this
      cases this
      rfl
    have hpast := (h.begun i _ _ now hi rfl).1
    rw [← hsame, Entry.isExpired_mono hpast hexp] at hlive
    cases hlive

/-- **One step keeps the map consistent.** -/
theorem Consistent.next (h : Consistent past s) (hstep : step s a = some t) :
    Consistent (past ++ [⟨s, a, t⟩]) t := by
  have hbegun : ∀ {i call now}, (now ≤ s.clock ∧ ∃ ev ∈ past, ev.act = .start i call ∧ ev.pre.clock = now) →
      now ≤ t.clock → now ≤ t.clock ∧ ∃ ev ∈ past ++ [⟨s, a, t⟩], ev.act = .start i call ∧ ev.pre.clock = now := by
    rintro i call now ⟨-, ev, hev, hstart⟩ hle
    exact ⟨hle, ev, List.mem_append_left _ hev, hstart⟩
  obtain ⟨d, rfl, rfl⟩ | ⟨i, call, rfl, hi, rfl⟩ | ⟨i, stage, stage', map', rfl, hi, hrun, rfl⟩ := step_cases hstep
  · have hlast : ∀ key, lastWrite key (past ++ [⟨s, .tick d, { s with clock := s.clock + d }⟩]) = lastWrite key past :=
      fun key => lastWrite_concat ..
    refine ⟨fun key e he => ?_, fun key e he hlive => ?_, fun i stage call now hi hr => ?_⟩
    · rw [hlast]
      exact h.held key e he
    · rw [hlast] at he
      exact h.kept key e he (Entry.isExpired_false_of_le (Nat.le_add_right ..) hlive)
    · have hold := h.begun i stage call now hi hr
      exact hbegun hold (hold.1.trans (Nat.le_add_right ..))
  · refine ⟨fun key e he => ?_, fun key e he hlive => ?_, fun j stage call' now hj hr => ?_⟩
    · rw [lastWrite_concat]
      exact h.held key e he
    · rw [lastWrite_concat] at he
      exact h.kept key e he hlive
    · by_cases hji : j = i
      · subst hji
        simp only [Function.update_self, Option.some.injEq] at hj
        obtain ⟨rfl, rfl⟩ := Call.reading_begin (hj ▸ hr)
        exact ⟨le_rfl, _, List.mem_append_right _ (List.mem_singleton_self _), rfl, rfl⟩
      · simp only [Function.update_of_ne hji] at hj
        have hold := h.begun j stage call' now hj hr
        exact hbegun hold hold.1
  · have hlast : ∀ key, writes key ⟨s, .lock i, ⟨s.clock, map', Function.update s.calls i (some stage')⟩⟩ =
        stage.writes key := fun key => by simp only [writes, hi, Option.bind_some]
    refine ⟨fun key e he => ?_, fun key e he hlive => ?_, fun j stage₁ call now hj hr => ?_⟩
    · rw [lastWrite_concat, hlast]
      exact h.run_held hrun he
    · rw [lastWrite_concat, hlast] at he
      exact h.run_kept hi hrun he hlive
    · by_cases hji : j = i
      · subst hji
        simp only [Function.update_self, Option.some.injEq] at hj
        have hold := h.begun j stage call now hi (Stage.reading_run hrun (hj ▸ hr))
        exact hbegun hold hold.1
      · simp only [Function.update_of_ne hji] at hj
        have hold := h.begun j stage₁ call now hj hr
        exact hbegun hold hold.1

end

/-- What a step of a run may show, given the steps before it. -/
structure Faithful (past : List (Event Sys Act)) (ev : Event Sys Act) : Prop where
  /-- A `get` returns the value written last, when it is unexpired at the lookup. -/
  found : ∀ i key now e, ev.act = .lock i → ev.pre.calls i = some (.looking key now) →
    lastWrite key past = some (some e) → e.isExpired ev.pre.clock = false →
    ev.post.calls i = some (.done (.got (some e.value)))
  /-- A value that a `get` returns was written last, and is unexpired at the `get`'s own reading. -/
  genuine : ∀ i v, ev.post.calls i = some (.done (.got (some v))) → ev.pre.calls i ≠ ev.post.calls i →
    ∃ key now e, ev.pre.calls i = some (.looking key now) ∧
      (∃ ev' ∈ past, ev'.act = .start i (.get key) ∧ ev'.pre.clock = now) ∧
      lastWrite key past = some (some e) ∧ e.value = v ∧ e.isExpired now = false
  /-- A `scan_prefix` lists what is unexpired at its lookup, and only what was written last and is
  unexpired at its own reading. -/
  listed : ∀ i pre now, ev.act = .lock i → ev.pre.calls i = some (.scanning pre now) →
    (∃ ev' ∈ past, ev'.act = .start i (.scanPrefix pre) ∧ ev'.pre.clock = now) ∧
    ∃ keys, ev.post.calls i = some (.done (.listed keys)) ∧
      (∀ key e, Text.startsWith pre key = true → lastWrite key past = some (some e) →
        e.isExpired ev.pre.clock = false → key ∈ keys) ∧
      ∀ key ∈ keys, Text.startsWith pre key = true ∧
        ∃ e, lastWrite key past = some (some e) ∧ e.isExpired now = false
  /-- An eviction leaves every entry that is unexpired when it runs. -/
  evicted : ∀ i key now, ev.act = .lock i → ev.pre.calls i = some (.evicting key now) →
    ∀ k e, ev.pre.map.lookup k = some e → e.isExpired ev.pre.clock = false → ev.post.map.lookup k = some e

section

variable {past : List (Event Sys Act)} {s t : Sys} {a : Act}

/-- A step that runs a call runs what that call does under its lock. -/
theorem step_lock {i : ℕ} {stage : Stage} (hstep : step s (.lock i) = some t) (hi : s.calls i = some stage) :
    ∃ stage' map', stage.run s.map = some (stage', map') ∧
      t = ⟨s.clock, map', Function.update s.calls i (some stage')⟩ := by
  simp only [step, hi] at hstep
  obtain ⟨⟨stage', map'⟩, hrun, rfl⟩ := Option.map_eq_some_iff.mp hstep
  exact ⟨stage', map', hrun, rfl⟩

theorem Consistent.found (h : Consistent past s) {i now : ℕ} {key : String} {e : Entry}
    (hstep : step s (.lock i) = some t) (hi : s.calls i = some (.looking key now))
    (he : lastWrite key past = some (some e)) (hlive : e.isExpired s.clock = false) :
    t.calls i = some (.done (.got (some e.value))) := by
  obtain ⟨stage', map', hrun, rfl⟩ := step_lock hstep hi
  have hnow : e.isExpired now = false := Entry.isExpired_false_of_le (h.begun i _ _ now hi rfl).1 hlive
  simp only [Stage.run, h.kept key e he hlive, hnow, Bool.false_eq_true, if_false, Option.some.injEq,
    Prod.mk.injEq] at hrun
  simp only [Function.update_self, ← hrun.1]

/-- Only a lookup ends a `get` with a value. -/
theorem Stage.run_got {stage : Stage} {map map' : Table} {v : String}
    (hrun : stage.run map = some (.done (.got (some v)), map')) :
    ∃ key now e, stage = .looking key now ∧ map.lookup key = some e ∧ e.value = v ∧ e.isExpired now = false := by
  cases stage with
  | looking key now =>
    cases he : map.lookup key with
    | none => simp [run, he] at hrun
    | some e =>
      cases hexp : e.isExpired now with
      | true => simp [run, he, hexp] at hrun
      | false =>
        simp only [run, he, hexp, Bool.false_eq_true, if_false, Option.some.injEq, Prod.mk.injEq, done.injEq,
          Answer.got.injEq] at hrun
        exact ⟨key, now, e, rfl, he, hrun.1, hexp⟩
  | evicting key now => simp [run] at hrun
  | storing key entry => simp [run] at hrun
  | removing key now => simp [run] at hrun
  | scanning pre now => simp [run] at hrun
  | done answer => simp [run] at hrun

theorem Call.begin_ne_got (call : Call) (clock : ℕ) (v : String) : call.begin clock ≠ .done (.got (some v)) := by
  cases call with
  | get key => simp [begin]
  | set key value ttl =>
    cases ttl with
    | none => simp [begin]
    | some ttl => cases hadd : instantAdd clock ttl <;> simp [begin, hadd]
  | delete key => simp [begin]
  | scanPrefix pre => simp [begin]

theorem Consistent.genuine (h : Consistent past s) (hstep : step s a = some t) {i : ℕ} {v : String}
    (hpost : t.calls i = some (.done (.got (some v)))) (hne : s.calls i ≠ t.calls i) :
    ∃ key now e, s.calls i = some (.looking key now) ∧
      (∃ ev' ∈ past, ev'.act = .start i (.get key) ∧ ev'.pre.clock = now) ∧
      lastWrite key past = some (some e) ∧ e.value = v ∧ e.isExpired now = false := by
  obtain ⟨d, rfl, rfl⟩ | ⟨j, call, rfl, hj, rfl⟩ | ⟨j, stage, stage', map', rfl, hj, hrun, rfl⟩ := step_cases hstep
  · exact absurd rfl hne
  · by_cases hij : i = j
    · subst hij
      simp only [Function.update_self, Option.some.injEq] at hpost
      exact absurd hpost (Call.begin_ne_got call s.clock v)
    · simp only [Function.update_of_ne hij, ne_eq, not_true_eq_false] at hne
  · by_cases hij : i = j
    · subst hij
      simp only [Function.update_self, Option.some.injEq] at hpost
      subst hpost
      obtain ⟨key, now, e, rfl, he, hv, hlive⟩ := Stage.run_got hrun
      exact ⟨key, now, e, hj, (h.begun i _ _ now hj rfl).2, h.held key e he, hv, hlive⟩
    · simp only [Function.update_of_ne hij, ne_eq, not_true_eq_false] at hne

theorem Consistent.listed (h : Consistent past s) {i now : ℕ} {pre : String}
    (hstep : step s (.lock i) = some t) (hi : s.calls i = some (.scanning pre now)) :
    ∃ keys, t.calls i = some (.done (.listed keys)) ∧
      (∀ key e, Text.startsWith pre key = true → lastWrite key past = some (some e) →
        e.isExpired s.clock = false → key ∈ keys) ∧
      ∀ key ∈ keys, Text.startsWith pre key = true ∧
        ∃ e, lastWrite key past = some (some e) ∧ e.isExpired now = false := by
  obtain ⟨stage', map', hrun, rfl⟩ := step_lock hstep hi
  cases hrun
  refine ⟨s.map.scan pre now, by simp only [Function.update_self], fun key e hpre he hlive => ?_, fun key hkey => ?_⟩
  · have hnow : e.isExpired now = false := Entry.isExpired_false_of_le (h.begun i _ _ now hi rfl).1 hlive
    exact Table.mem_scan.mpr ⟨hpre, e, h.kept key e he hlive, hnow⟩
  · obtain ⟨hpre, e, he, hlive⟩ := Table.mem_scan.mp hkey
    exact ⟨hpre, e, h.held key e he, hlive⟩

theorem Consistent.evicted (h : Consistent past s) {i now : ℕ} {key k : String} {e : Entry}
    (hstep : step s (.lock i) = some t) (hi : s.calls i = some (.evicting key now))
    (he : s.map.lookup k = some e) (hlive : e.isExpired s.clock = false) : t.map.lookup k = some e := by
  obtain ⟨stage', map', hrun, rfl⟩ := step_lock hstep hi
  exact h.run_kept hi hrun (h.held k e he) hlive

end

/-- **Lazy eviction never hides a live value nor revives a dead one**, in every interleaving. -/
theorem eviction_faithful {clock : ℕ} {acts : List Act} {before after : List (Event Sys Act)} {ev : Event Sys Act}
    (h : trace step (Sys.init clock) acts = before ++ ev :: after) : Faithful before ev := by
  have hinv : Consistent before ev.pre :=
    history_of_trace (fun _ _ _ _ h hstep => h.next hstep) (Consistent.init clock) h
  have hstep : step ev.pre ev.act = some ev.post :=
    step_of_mem_trace (h ▸ List.mem_append_right _ (List.mem_cons_self ..))
  constructor
  case found =>
    intro i key now e hact hi he hlive
    exact hinv.found (hact ▸ hstep) hi he hlive
  case genuine =>
    intro i v hpost hne
    exact hinv.genuine hstep hpost hne
  case listed =>
    intro i pre now hact hi
    exact ⟨(hinv.begun i _ _ now hi rfl).2, hinv.listed (hact ▸ hstep) hi⟩
  case evicted =>
    intro i key now hact hi k e he hlive
    exact hinv.evicted (hact ▸ hstep) hi he hlive

/-- A `get` that finds `k` expired, while a `set` is under way: the new entry is in the map when the
`get` comes to evict, and stays there. -/
def renewal : List Act :=
  [.start 0 (.set "k" "old" (some 5)), .lock 0, .tick 5, .start 1 (.get "k"), .start 2 (.set "k" "new" (some 5)),
    .lock 1, .lock 2, .lock 1, .start 3 (.get "k"), .lock 3]

theorem eviction_faithful_renewal :
    ∃ before ev, trace step (Sys.init 0) renewal = before ++ [ev] ∧ Faithful before ev ∧
      ev.post.calls 3 = some (.done (.got (some "new"))) := by
  have hne : trace step (Sys.init 0) renewal ≠ [] := List.cons_ne_nil _ _
  have hsplit := (List.dropLast_append_getLast hne).symm
  exact ⟨_, _, hsplit, eviction_faithful hsplit, rfl⟩

end TtlMap

end G2way.Storage
