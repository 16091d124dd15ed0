import LambdaNotation.Proofs.Reading

/-!
# What a run asks for

A run asks its reader for the bodies of the pieces of its text, in order, up to the first that
cannot be read (`Piece.asked`). It depends on the reader through the answers to these and through
nothing else (`Machine.run_congr`), and the readings in its log are those that come with the answers
(`Machine.readings_run`). A reader that notes each call shows the calls themselves
(`Machine.requests_eq`).
-/

namespace LambdaNotation

open Text

/-! ## Readings in a log -/

/-- The body and the level that a record says are read. -/
def Record.reading? : Record → Option (Text × UInt64)
  | .reading body level => some (body, level)
  | _ => none

theorem Record.reading?_ofMove (move : Move) (c : Option Char) :
    (Record.ofMove move c).reading? = none := by
  cases c <;> rfl

theorem Record.reading?_eq_some_iff {r : Record} {body : Text} {level : UInt64} :
    r.reading? = some (body, level) ↔ r = .reading body level := by
  cases r <;> simp [reading?]

namespace Log

/-- The bodies that are read according to a log, each with its level, the first one first. -/
def readings (log : Log) : List (Text × UInt64) := log.toList.filterMap Record.reading?

@[simp] theorem readings_empty : (∅ : Log).readings = [] := rfl

@[simp] theorem readings_note (log : Log) (r : Record) :
    (log.note r).readings = log.readings ++ r.reading?.toList := by
  unfold readings
  rw [toList_note, List.filterMap_append]
  cases h : r.reading? <;> simp [h]

@[simp] theorem readings_append (log next : Log) :
    (log ++ next).readings = log.readings ++ next.readings := by
  unfold readings
  rw [toList_append, List.filterMap_append]

theorem mem_readings_iff {log : Log} {body : Text} {level : UInt64} :
    (body, level) ∈ log.readings ↔ .reading body level ∈ log.toList := by
  unfold readings
  rw [List.mem_filterMap]
  simp only [Record.reading?_eq_some_iff, exists_eq_right]

end Log

/-- Answers like `read`, and records every call but nothing else. -/
def BodyReader.noting (read : BodyReader) : BodyReader := fun body level =>
  ⟨(read body level).value, Log.note ∅ (.reading body level)⟩

theorem BodyReader.value_inner_noting (read : BodyReader) (body : Text) (level : UInt64) :
    (read.noting.inner body level).value = (read.inner body level).value := by
  unfold inner
  split <;> rfl

/-- The readings of an answer are those of the calls that it takes. -/
theorem BodyReader.readings_inner (read : BodyReader) (body : Text) (level : UInt64) :
    (read.inner body level).log.readings =
      (read.noting.inner body level).log.readings.flatMap fun r => (read r.1 r.2).log.readings := by
  unfold inner
  split
  · simp [noting, Record.reading?]
  · rfl

/-- The bodies that a run asks its reader for, each with its level, in order. -/
def Machine.requests (m : Machine) (read : BodyReader) (s : Text) (level : UInt64) :
    List (Text × UInt64) :=
  (m.run read.noting s level).log.readings

/-! ## The bodies of pieces that are asked for -/

namespace Piece

/-- The bodies of pieces up to the first piece that cannot be read. -/
def asked (read : BodyReader) (level : UInt64) : List Piece → List Text
  | [] => []
  | p :: ps =>
    match p.read read level with
    | .ok _ => p.body?.toList ++ asked read level ps
    | .error _ => p.body?.toList

variable {read : BodyReader} {level : UInt64} {ps : List Piece} {p : Option Piece} {b : Text}

theorem asked_append_of_ok {ts : List Term} (h : p.toList.mapM (Piece.read read level) = .ok ts) :
    asked read level (p.toList ++ ps) = (p.bind body?).toList ++ asked read level ps := by
  cases p with
  | none => rfl
  | some p =>
    obtain ⟨t, _, hp, -, -⟩ := mapM_read_cons_eq_ok_iff.1 h
    show asked read level (p :: ps) = p.body?.toList ++ asked read level ps
    rw [asked, hp]

theorem asked_append_of_error {x : Failure ParseError}
    (h : p.toList.mapM (Piece.read read level) = .error x) :
    asked read level (p.toList ++ ps) = (p.bind body?).toList := by
  cases p with
  | none => cases h
  | some p =>
    obtain ⟨q, hq, hp⟩ := exists_of_mapM_read_eq_error h
    rw [List.mem_singleton.1 hq] at hp
    show asked read level (p :: ps) = p.body?.toList
    rw [asked, hp]

theorem asked_prefix_bodies (read : BodyReader) (level : UInt64) (ps : List Piece) :
    asked read level ps <+: ps.filterMap body? := by
  induction ps with
  | nil => exact List.prefix_rfl
  | cons p ps ih =>
    have hcons : (p :: ps).filterMap body? = p.body?.toList ++ ps.filterMap body? := by
      cases h : p.body? <;> simp [h]
    rw [asked, hcons]
    cases p.read read level with
    | ok _ => exact (List.prefix_append_right_inj _).2 ih
    | error _ => exact List.prefix_append _ _

theorem exists_of_mem_asked (h : b ∈ asked read level ps) : ∃ p ∈ ps, p.body? = some b :=
  List.mem_filterMap.1 ((asked_prefix_bodies read level ps).subset h)

/-- What is asked for depends on what the answers come to, and not on what they record. -/
theorem asked_noting (read : BodyReader) (level : UInt64) (ps : List Piece) :
    asked read.noting level ps = asked read level ps := by
  induction ps with
  | nil => rfl
  | cons p ps ih =>
    have hp : p.read read.noting level = p.read read level := by
      cases p <;> simp only [Piece.read, BodyReader.value_inner_noting]
    rw [asked, asked, hp, ih]

end Piece

/-! ## What an action asks for -/

/-- The context that an action ends with, also where it fails. -/
def Context.after : EStateM.Result (Failure ParseError) Context Unit → Context
  | .ok _ k => k
  | .error _ k => k

/-- From a context, an action depends on its reader through what it answers for some bodies, one
level further in, and the readings that it logs are those of the answers. -/
structure Asks (act : BodyReader → Action Unit) (k : Context) (bodies : BodyReader → List Text) :
    Prop where
  congr : ∀ read read' : BodyReader,
    (∀ b ∈ bodies read, read.inner b k.level = read'.inner b k.level) → act read k = act read' k
  readings : ∀ read : BodyReader, (Context.after (act read k)).log.readings =
    k.log.readings ++ (bodies read).flatMap fun b => (read.inner b k.level).log.readings

namespace Asks

variable {act act' : BodyReader → Action Unit} {k k' : Context} {bodies : BodyReader → List Text}

theorem nothing {r : EStateM.Result (Failure ParseError) Context Unit} (h : ∀ read, act read k = r)
    (hr : (Context.after r).log.readings = k.log.readings) : Asks act k fun _ => [] := by
  refine ⟨fun read read' _ => (h read).trans (h read').symm, fun read => ?_⟩
  rw [h read, hr, List.flatMap_nil, List.append_nil]

/-- An action that goes on from another context, with no reading in between. -/
theorem move (ha : Asks act' k' bodies) (h : ∀ read, act read k = act' read k')
    (hlevel : k'.level = k.level) (hlog : k'.log.readings = k.log.readings) :
    Asks act k bodies := by
  refine ⟨fun read read' hb => ?_, fun read => ?_⟩
  · rw [h, h, ha.congr read read' (by rwa [hlevel])]
  · rw [h, ha.readings, hlevel, hlog]

/-- An action and then another one, which goes on at the same level. -/
theorem bind {first : List Text} {all : BodyReader → List Text}
    (ha : Asks act k fun _ => first) (later : BodyReader → List Text)
    (hok : ∀ read k', act read k = .ok () k' →
      k'.level = k.level ∧ Asks act' k' later ∧ all read = first ++ later read)
    (herror : ∀ read x k', act read k = .error x k' → all read = first) :
    Asks (fun read => EStateM.bind (act read) fun _ => act' read) k all := by
  refine ⟨fun read read' h => ?_, fun read => ?_⟩
  · rcases hr : act read k with ⟨_, k'⟩ | ⟨x, k'⟩
    · obtain ⟨hlev, hlater, hall⟩ := hok read k' hr
      rw [hall] at h
      obtain ⟨hfirst, hrest⟩ := List.forall_mem_append.1 h
      have hr' := (ha.congr read read' hfirst).symm.trans hr
      rw [bind_of_ok hr, bind_of_ok hr']
      exact hlater.congr read read' (by rwa [hlev])
    · rw [herror read x k' hr] at h
      have hr' := (ha.congr read read' h).symm.trans hr
      rw [bind_of_error hr, bind_of_error hr']
  · have hlog := ha.readings read
    rcases hr : act read k with ⟨_, k'⟩ | ⟨x, k'⟩
    · obtain ⟨hlev, hlater, hall⟩ := hok read k' hr
      rw [hr] at hlog
      have hlog : k'.log.readings = _ := hlog
      rw [bind_of_ok hr, hlater.readings, hlog, hlev, hall, List.flatMap_append, List.append_assoc]
    · rw [hr] at hlog
      rw [bind_of_error hr, herror read x k' hr]
      exact hlog

end Asks

namespace Callback

theorem asks_captureGroup (c : Option Char) (k : Context) :
    Asks (fun read => captureGroup read c) k fun _ => [k.body.toList] := by
  refine ⟨fun read read' h => ?_, fun read => ?_⟩
  · have hb := h _ (List.mem_singleton_self _)
    rcases hr : (read.inner k.body.toList k.level).value with x | parts
    · rw [captureGroup_of_error hr, captureGroup_of_error (hb ▸ hr), hb]
    · rw [captureGroup_of_ok hr, captureGroup_of_ok (hb ▸ hr), hb]
  · rcases hr : (read.inner k.body.toList k.level).value with x | parts
    · rw [captureGroup_of_error hr]
      simp [Context.after]
    · rw [captureGroup_of_ok hr]
      simp [Context.after, Context.push, Record.reading?]

theorem asks_captureLambda (c : Option Char) {k : Context} (hn : isName k.name.toList) :
    Asks (fun read => captureLambda read c) k fun _ => [k.body.toList] := by
  refine ⟨fun read read' h => ?_, fun read => ?_⟩
  · have hb := h _ (List.mem_singleton_self _)
    rcases hr : (read.inner k.body.toList k.level).value with x | parts
    · rw [captureLambda_of_error hn hr, captureLambda_of_error hn (hb ▸ hr), hb]
    · rw [captureLambda_of_ok hn hr, captureLambda_of_ok hn (hb ▸ hr), hb]
  · rcases hr : (read.inner k.body.toList k.level).value with x | parts
    · rw [captureLambda_of_error hn hr]
      simp [Context.after]
    · rw [captureLambda_of_ok hn hr]
      simp [Context.after, Context.push, Record.reading?]

end Callback

namespace Machine

variable (limit : UInt64) {k : Context} {d e : Pending} {c : Char} {p : Option Piece} {s : Text}

/-- The callbacks of a move ask for the body that the move completes. -/
theorem asks_applyWith (h : Pending.Leads c d p e) (hd : d.Valid) (hk : k.name.toList = d.name)
    (hb : k.body.toList = d.body) :
    Asks (fun read => (standard limit).applyWith read ⟨d.state, e.state⟩ (some c)) k
      fun _ => (p.bind Piece.body?).toList := by
  cases h with
  | first hd he =>
    rcases Pending.opening_eq_some he with ⟨rfl, rfl⟩ | ⟨rfl, rfl⟩ | ⟨hu, hl, rfl⟩ <;>
      rcases hd with rfl | rfl | rfl <;> exact .nothing (fun _ => rfl) rfl
  | follows he =>
    rcases Pending.opening_eq_some he with ⟨rfl, rfl⟩ | ⟨rfl, rfl⟩ | ⟨hu, hl, rfl⟩ <;>
      exact .nothing (fun _ => rfl)
        (by simp [Context.after, Context.push, Context.clearName, Record.reading?])
  | letter _ | firstDigit _ | digit _ | binderStart _ | binderLetter _ | binderFirstDigit _
  | binderDigit _ | dot _ | lambdaOpens _ | lambdaGoesOn _ | groupGoesOn _ =>
    exact .nothing (fun _ => rfl) rfl
  | lambdaCloses _ _ =>
    obtain rfl : k.body.toList = _ := hb
    exact (Callback.asks_captureLambda (some c) (hk ▸ hd.1)).move
      (fun read => applyWith_lambdaEnd limit read (some c)) rfl rfl
  | groupCloses _ _ =>
    obtain rfl : k.body.toList = _ := hb
    exact (Callback.asks_captureGroup (some c) k).move
      (fun read => applyWith_groupEnd limit read (some c)) rfl rfl

theorem asks_feed (hk : k.Holds d) (hd : d.Valid) (hfit : d.depth + excess [c] < 2 ^ 31)
    (hn : d.next c = some (p, e)) :
    Asks (fun read => (standard limit).feed read c) k fun _ => (p.bind Piece.body?).toList := by
  have hl := Pending.leads_of_next hn
  obtain ⟨n, hc, hdepth⟩ := exists_count_of_leads hk hd hfit hl
  have hs : d.state.step c n = .ok ⟨d.state, e.state⟩ :=
    State.step_eq_ok_iff.2 ⟨rfl, hl.next? hdepth⟩
  refine (asks_applyWith limit hl hd (k := { k with
    nesting := n
    state := e.state
    log := k.log.note (.ofMove ⟨d.state, e.state⟩ (some c)) }) hk.name hk.body).move
    (fun read => ?_) rfl ?_
  · rw [feed_of_count _ read hc, hk.state, hs, follow_ok]
  · rw [Log.readings_note, Record.reading?_ofMove, Option.toList_none, List.append_nil]

theorem asks_feed_of_next_none (hk : k.Holds d) (hn : d.next c = none) :
    Asks (fun read => (standard limit).feed read c) k fun _ => [] := by
  obtain ⟨n, hc⟩ := exists_count_of_next_none hk hn
  refine .nothing (r := .error
    (.ofFault (.grammar (.unexpectedCharacter d.state c d.state.expected)))
    { k with nesting := n }) (fun read => ?_) rfl
  rw [feed_of_count _ read hc, hk.state, State.step, Pending.next?_of_none hn]
  rfl

theorem asks_applyWith_done (h : d.state.acceptsEnd) (k : Context) :
    Asks (fun read => (standard limit).applyWith read ⟨d.state, .done⟩ none) k fun _ => [] := by
  cases d with
  | start | groupEnd | lambdaEnd => exact .nothing (fun _ => rfl) rfl
  | letters w | digits w =>
    exact .nothing (fun _ => rfl)
      (by simp [Context.after, Context.push, Context.clearName, Record.reading?])
  | _ => cases h

/-- At the end of the text nothing is asked for. -/
theorem asks_finish (hk : k.Holds d) :
    Asks (fun read => (standard limit).finish read) k fun _ => [] := by
  by_cases h : d.state.acceptsEnd
  · have hs : k.state.finish = .ok ⟨d.state, .done⟩ := by
      rw [hk.state, State.finish_eq_ok_iff.2 ⟨h, rfl⟩]
    refine (asks_applyWith_done limit h { k with
      state := .done
      log := k.log.note (.ofMove ⟨d.state, .done⟩ none) }).move (fun read => ?_) rfl ?_
    · rw [finish_apply, hs, follow_ok]
    · rw [Log.readings_note, Record.reading?_ofMove, Option.toList_none, List.append_nil]
  · refine .nothing (r := .error (.ofFault (.grammar (.unexpectedEnd d.state))) k)
      (fun read => ?_) rfl
    rw [finish_apply, hk.state, State.finish, if_neg h]
    rfl

theorem asked_cut_nil (read : BodyReader) (level : UInt64) (d : Pending) :
    Piece.asked read level (d.cut []).pieces = [] := by
  cases d <;> rfl

/-- The rest of a text asks for the bodies of its pieces, up to the first that cannot be read. -/
theorem asks_rest (hk : k.Holds d) (hd : d.Valid) (hfit : d.Fits s) :
    Asks (fun read => EStateM.bind (s.forM ((standard limit).feed read))
        fun _ => (standard limit).finish read) k
      fun read => Piece.asked read k.level (d.cut s).pieces := by
  induction s generalizing d k with
  | nil =>
    rw [funext fun read => asked_cut_nil read k.level d]
    exact (asks_finish limit hk).move (fun _ => rfl) rfl rfl
  | cons c s ih =>
    rcases hn : d.next c with _ | ⟨p, e⟩
    · rw [Pending.cut_cons_of_none hn]
      refine ((asks_feed_of_next_none limit hk hn).bind (fun _ => [])
        (fun read k' hr => ?_) fun _ _ _ _ => rfl).move (fun _ => bind_forM_cons) rfl rfl
      obtain ⟨p, e, -, h, -⟩ := exists_of_feed_eq_ok limit read hk hd hfit.depth_add_lt hr
      rw [hn] at h
      cases h
    · have hfit' := hfit.depth_add_lt
      rw [Pending.cut_cons_of_some hn, Cut.prepend]
      refine ((asks_feed limit hk hd hfit' hn).bind
        (fun read => Piece.asked read k.level (e.cut s).pieces) (fun read k' hr => ?_)
        fun read x k' hr => ?_).move (fun _ => bind_forM_cons) rfl rfl
      · obtain ⟨p', e', ts, hn', hp, hk', hlev, -⟩ := exists_of_feed_eq_ok limit read hk hd hfit' hr
        obtain ⟨rfl, rfl⟩ := Prod.mk.inj (Option.some.inj (hn.symm.trans hn'))
        have hl := Pending.leads_of_next hn
        have hrest := ih hk' (hl.valid hd) (hfit.of_leads hl)
        rw [hlev] at hrest
        exact ⟨hlev, hrest, Piece.asked_append_of_ok hp⟩
      · rcases hp : p.toList.mapM (Piece.read read k.level) with y | ts
        · exact Piece.asked_append_of_error hp
        · obtain ⟨k₁, hr', -⟩ := feed_of_ok limit read hk hd hfit' hn hp
          rw [hr'] at hr
          cases hr

/-! ## What a run asks for -/

variable {read read' : BodyReader} {level : UInt64}

theorem run_log (m : Machine) (read : BodyReader) (s : Text) (level : UInt64) :
    (m.run read s level).log = (Context.after (m.scan read s { level := level })).log := by
  unfold run
  cases m.scan read s { level := level } <;> rfl

/-- A run depends on its reader through the answers for the bodies that it asks for. -/
theorem run_congr (hs : Pending.start.Fits s.raised)
    (h : ∀ b ∈ Piece.asked read level (Pending.start.cut s.raised).pieces,
      read.inner b level = read'.inner b level) :
    (standard limit).run read s level = (standard limit).run read' s level := by
  have hscan : (standard limit).scan read s { level := level } =
      (standard limit).scan read' s { level := level } :=
    (asks_rest limit (holds_start level) trivial hs).congr read read' h
  unfold run
  rw [hscan]

theorem readings_run_eq (hs : Pending.start.Fits s.raised) :
    ((standard limit).run read s level).log.readings =
      (Piece.asked read level (Pending.start.cut s.raised).pieces).flatMap
        fun b => (read.inner b level).log.readings := by
  rw [run_log]
  exact (asks_rest limit (holds_start level) trivial hs).readings read

/-- The calls are for the bodies that are asked for, one level further in. -/
theorem requests_eq (hs : Pending.start.Fits s.raised) (hl : level.toNat + 1 < UInt64.size) :
    (standard limit).requests read s level =
      (Piece.asked read level (Pending.start.cut s.raised).pieces).map (·, level + 1) := by
  rw [requests, readings_run_eq limit hs, Piece.asked_noting]
  simp only [BodyReader.inner_of_lt hl]
  exact List.map_eq_flatMap.symm

/-- The readings in the log of a run come with the answers to its calls. -/
theorem readings_run (hs : Pending.start.Fits s.raised) :
    ((standard limit).run read s level).log.readings =
      ((standard limit).requests read s level).flatMap fun r => (read r.1 r.2).log.readings := by
  rw [requests, readings_run_eq limit hs, readings_run_eq limit hs, Piece.asked_noting,
    List.flatMap_assoc]
  simp only [BodyReader.readings_inner read]

end Machine

end LambdaNotation
