import LambdaNotation.Proofs.RoundTrip

/-!
# What the log tells

A run writes a record of importance `debug` when it has a body read and when a term is complete. A
name is complete one character late and a body only with its last parenthesis, and other runs write
in between; still the records of a text that is read are those of its pieces in order
(`Machine.debug_run`), and so they go through the terms from left to right, each body before the
term around it (`Derivation.map_message_records`).
-/

namespace LambdaNotation

open Text

/-! ## The records that tell something -/

namespace Record

/-- The record of a complete term. -/
def found : Term → Record
  | .var symbol => .foundVariable symbol
  | .node none parts stored => .foundGroup (.node none parts stored)
  | .node (some binder) parts stored => .foundLambda (.node (some binder) parts stored)

/-- The term that a record says is complete. -/
def found? : Record → Option Term
  | .foundVariable symbol => some (.var symbol)
  | .foundGroup term | .foundLambda term => some term
  | _ => none

theorem message_foundGroup (q : Quoting) (t : Term) :
    (foundGroup t).message q = "Captured parenthetical ".toList ++ t.print := rfl

theorem message_foundLambda (q : Quoting) (t : Term) :
    (foundLambda t).message q = "Captured lambda ".toList ++ t.print := rfl

theorem importance_found (t : Term) : (found t).importance = .debug := by
  cases t with
  | var symbol => rfl
  | node binder parts stored => cases binder <;> rfl

theorem importance_ofMove (move : Move) (c : Option Char) :
    (ofMove move c).importance = .trace := by
  cases c <;> rfl

end Record

/-! ## What is told about terms -/

namespace Term

/-- That the text of terms in parentheses is read, at a level. -/
def readingText (q : Quoting) (level : Nat) (parts : List Term) : Text :=
  "Parsing captured text ".toList ++ q.text (sourceAll parts) ++ " at level ".toList ++
    numeral level

theorem message_reading (q : Quoting) (level : UInt64) (parts : List Term) :
    (Record.reading (sourceAll parts) level).message q = readingText q level.toNat parts := rfl

mutual

/-- What is told about a term that stands at a level. A term in parentheses is told about after the
terms in them, which stand one level further in and are told about after their text; the group that
is the body of a lambda is not told about by itself. -/
def narration (q : Quoting) (level : Nat) : Term → List Text
  | .var symbol => ["Captured variable ".toList ++ symbol]
  | .node none parts stored =>
    readingText q (level + 1) parts :: (narrationAll q (level + 1) parts ++
      ["Captured parenthetical ".toList ++ (Term.node none parts stored).print])
  | .node (some binder) [.node none parts inner] stored =>
    readingText q (level + 1) parts :: (narrationAll q (level + 1) parts ++
      ["Captured lambda ".toList ++
        (Term.node (some binder) [.node none parts inner] stored).print])
  | .node (some binder) parts stored =>
    readingText q (level + 1) parts :: (narrationAll q (level + 1) parts ++
      ["Captured lambda ".toList ++ (Term.node (some binder) parts stored).print])

def narrationAll (q : Quoting) (level : Nat) : List Term → List Text
  | [] => []
  | t :: ts => narration q level t ++ narrationAll q level ts

end

mutual

/-- The nodes of a term, each after those inside it. A lambda and the group that is its body are one
node. -/
def nodes : Term → List Term
  | .var symbol => [.var symbol]
  | .node none parts stored => nodesAll parts ++ [.node none parts stored]
  | .node (some binder) [.node none parts inner] stored =>
    nodesAll parts ++ [.node (some binder) [.node none parts inner] stored]
  | .node (some binder) parts stored => nodesAll parts ++ [.node (some binder) parts stored]

def nodesAll : List Term → List Term
  | [] => []
  | t :: ts => nodes t ++ nodesAll ts

end

theorem narration_group (q : Quoting) (level : Nat) (parts : List Term) :
    (group parts).narration q level =
      readingText q (level + 1) parts :: (narrationAll q (level + 1) parts ++
        ["Captured parenthetical ".toList ++ (group parts).print]) := by
  rw [group, narration]

theorem narration_lambda (q : Quoting) (level : Nat) (binder : Text) (parts : List Term) :
    (lambda binder (group parts)).narration q level =
      readingText q (level + 1) parts :: (narrationAll q (level + 1) parts ++
        ["Captured lambda ".toList ++ (lambda binder (group parts)).print]) := by
  rw [lambda, group, narration]

theorem nodes_group (parts : List Term) :
    (group parts).nodes = nodesAll parts ++ [group parts] := by
  rw [group, nodes]

theorem nodes_lambda (binder : Text) (parts : List Term) :
    (lambda binder (group parts)).nodes = nodesAll parts ++ [lambda binder (group parts)] := by
  rw [lambda, group, nodes]

end Term

namespace Log

/-- The records of importance `debug`, the oldest first. -/
def debug (log : Log) : List Record := log.toList.filter fun r => r.importance = .debug

@[simp] theorem debug_note_found (log : Log) (t : Term) :
    (log.note (.found t)).debug = log.debug ++ [.found t] := by
  unfold debug
  rw [toList_note, List.filter_append]
  simp [Record.importance_found]

@[simp] theorem debug_note_ofMove (log : Log) (move : Move) (c : Option Char) :
    (log.note (.ofMove move c)).debug = log.debug := by
  unfold debug
  rw [toList_note, List.filter_append]
  simp [Record.importance_ofMove]

@[simp] theorem debug_append (log next : Log) : (log ++ next).debug = log.debug ++ next.debug := by
  unfold debug
  rw [toList_append, List.filter_append]

end Log

theorem Context.debug_push (k : Context) (t : Term) :
    (k.push t (.found t)).log.debug = k.log.debug ++ [.found t] := Log.debug_note_found k.log t

namespace Piece

variable {read : BodyReader} {level : UInt64} {b w : Text} {parts : List Term}

/-- What reading a piece writes: the records of its body, then that of its term. -/
def records (read : BodyReader) (level : UInt64) (p : Piece) : List Record :=
  (p.body?.toList.flatMap fun b => (read.inner b level).log.debug) ++
    match p.read read level with
    | .ok t => [.found t]
    | .error _ => []

theorem records_group (h : (read.inner b level).value = .ok parts) :
    (group b).records read level =
      (read.inner b level).log.debug ++ [.foundGroup (.group parts)] := by
  rw [records, Piece.read, h]
  simp [body?, Except.map, Record.found, Term.group]

theorem records_lambda (h : (read.inner b level).value = .ok parts) :
    (lambda w b).records read level =
      (read.inner b level).log.debug ++ [.foundLambda (.lambda w (.group parts))] := by
  rw [records, Piece.read, h]
  simp [body?, Except.map, Record.found, Term.lambda]

end Piece

/-! ## The records of a run -/

namespace Machine

variable {limit level : UInt64} {read : BodyReader} {k k' : Context} {d e : Pending} {c : Char}
  {p : Option Piece} {s : Text} {ts : List Term}

theorem debug_captureGroup {x : Option Char} (h : Callback.captureGroup read x k = .ok () k') :
    k'.log.debug = k.log.debug ++ (Piece.group k.body.toList).records read k.level := by
  obtain ⟨parts, hr, rfl⟩ := Callback.exists_of_captureGroup_eq_ok h
  rw [Piece.records_group hr, ← List.append_assoc, ← Log.debug_append]
  exact Context.debug_push _ (.group parts)

theorem debug_captureLambda {x : Option Char} (h : Callback.captureLambda read x k = .ok () k') :
    k'.log.debug = k.log.debug ++
      (Piece.lambda k.name.toList k.body.toList).records read k.level := by
  obtain ⟨-, parts, hr, rfl⟩ := Callback.exists_of_captureLambda_eq_ok h
  rw [Piece.records_lambda hr, ← List.append_assoc, ← Log.debug_append]
  exact Context.debug_push _ (.lambda k.name.toList (.group parts))

/-- The callbacks of a move write what the piece writes that the move completes. -/
theorem debug_applyWith (hl : Pending.Leads c d p e) (hname : k.name.toList = d.name)
    (hbody : k.body.toList = d.body)
    (h : (standard limit).applyWith read ⟨d.state, e.state⟩ (some c) k = .ok () k') :
    k'.log.debug = k.log.debug ++ p.toList.flatMap (Piece.records read k.level) := by
  cases hl with
  | first hd he =>
    rcases Pending.opening_eq_some he with ⟨rfl, rfl⟩ | ⟨rfl, rfl⟩ | ⟨hu, hl, rfl⟩ <;>
      rcases hd with rfl | rfl | rfl <;> cases h <;> exact (List.append_nil _).symm
  | follows he =>
    obtain rfl : k.name.toList = _ := hname
    rcases Pending.opening_eq_some he with ⟨rfl, rfl⟩ | ⟨rfl, rfl⟩ | ⟨hu, hl, rfl⟩ <;> cases h <;>
      exact Context.debug_push _ (.var k.name.toList)
  | letter _ | firstDigit _ | digit _ | binderStart _ | binderLetter _ | binderFirstDigit _
  | binderDigit _ | dot _ | lambdaOpens _ | lambdaGoesOn _ | groupGoesOn _ =>
    cases h
    exact (List.append_nil _).symm
  | lambdaCloses _ _ =>
    obtain rfl : k.name.toList = _ := hname
    obtain rfl : k.body.toList = _ := hbody
    have h := (applyWith_lambdaEnd limit read (some c)).symm.trans h
    rw [debug_captureLambda h]
    simp
  | groupCloses _ _ =>
    obtain rfl : k.body.toList = _ := hbody
    have h := (applyWith_groupEnd limit read (some c)).symm.trans h
    rw [debug_captureGroup h]
    simp

theorem debug_feed (hk : k.Holds d) (hd : d.Valid) (hfit : d.depth + excess [c] < 2 ^ 31)
    (hn : d.next c = some (p, e)) (h : (standard limit).feed read c k = .ok () k') :
    k'.log.debug = k.log.debug ++ p.toList.flatMap (Piece.records read k.level) := by
  have hl := Pending.leads_of_next hn
  obtain ⟨n, hc, hdepth⟩ := exists_count_of_leads hk hd hfit hl
  have hs : d.state.step c n = .ok ⟨d.state, e.state⟩ :=
    State.step_eq_ok_iff.2 ⟨rfl, hl.next? hdepth⟩
  rw [feed_of_count _ read hc, hk.state, hs, follow_ok] at h
  rw [debug_applyWith hl ?_ ?_ h, Log.debug_note_ofMove]
  exacts [hk.name, hk.body]

/-- At the end of the text a name that is being read is complete. -/
theorem debug_applyWith_done (ha : d.state.acceptsEnd) (hname : k.name.toList = d.name)
    (h : (standard limit).applyWith read ⟨d.state, .done⟩ none k = .ok () k') :
    k'.log.debug = k.log.debug ++ d.last.toList.flatMap (Piece.records read k.level) := by
  cases d with
  | start | groupEnd | lambdaEnd =>
    cases h
    exact (List.append_nil _).symm
  | letters w | digits w =>
    obtain rfl : k.name.toList = w := hname
    cases h
    exact Context.debug_push _ (.var k.name.toList)
  | _ => cases ha

theorem debug_finish (hk : k.Holds d) (h : (standard limit).finish read k = .ok () k') :
    k'.log.debug = k.log.debug ++ (d.cut []).pieces.flatMap (Piece.records read k.level) := by
  rw [finish_apply, hk.state] at h
  rcases hs : d.state.finish with g | move
  · rw [hs, follow_error] at h
    cases h
  · obtain ⟨ha, rfl⟩ := State.finish_eq_ok_iff.1 hs
    rw [hs, follow_ok] at h
    rw [debug_applyWith_done ha ?_ h, Log.debug_note_ofMove, Pending.cut_nil_of_accepts ha]
    exact hk.name

/-- The rest of a text writes what its pieces write. -/
theorem debug_rest (hk : k.Holds d) (hd : d.Valid) (hfit : d.Fits s)
    (h : EStateM.bind (s.forM ((standard limit).feed read))
      (fun _ => (standard limit).finish read) k = .ok () k') :
    k'.log.debug = k.log.debug ++ (d.cut s).pieces.flatMap (Piece.records read k.level) := by
  induction s generalizing d k with
  | nil => exact debug_finish hk h
  | cons c s ih =>
    rw [bind_forM_cons] at h
    obtain ⟨_, k₁, hc, hs⟩ := exists_of_bind_eq_ok h
    have hfit' := hfit.depth_add_lt
    obtain ⟨p, e, ts, hn, -, hk₁, hlev, -⟩ := exists_of_feed_eq_ok limit read hk hd hfit' hc
    have hl := Pending.leads_of_next hn
    have hrest := ih hk₁ (hl.valid hd) (hfit.of_leads hl) hs
    rw [Pending.cut_cons_of_some hn, Cut.prepend, List.flatMap_append, ← List.append_assoc,
      ← debug_feed hk hd hfit' hn hc, ← hlev, hrest]

/-- **What a run writes** about a text that is read is what its pieces write, in order. -/
theorem debug_run (hs : Pending.start.Fits s.raised)
    (h : ((standard limit).run read s level).value = .ok ts) :
    ((standard limit).run read s level).log.debug =
      (Pending.start.cut s.raised).pieces.flatMap (Piece.records read level) := by
  rw [run_eq_outcome_scan] at h
  obtain ⟨k, hk, -⟩ := Context.exists_of_outcome_eq_ok h
  rw [run_log, hk]
  exact debug_rest (holds_start level) trivial hs hk

end Machine

/-! ## The records of a derivation -/

namespace Derivation

/-- The records of the items, for a text at a level. -/
def records (level : UInt64) : Derivation → List Record
  | nil => []
  | stem ls _ => [.foundVariable ls]
  | name ls ds _ _ rest => .foundVariable (ls ++ ds) :: rest.records level
  | group body rest =>
    .reading body.text (level + 1) :: (body.records (level + 1) ++
      .foundGroup (.group body.terms) :: rest.records level)
  | lambda ls ds _ _ _ body rest =>
    .reading body.text (level + 1) :: (body.records (level + 1) ++
      .foundLambda (.lambda (ls ++ ds) (.group body.terms)) :: rest.records level)

/-- The messages of the records tell what there is to tell about the terms. -/
theorem map_message_records (q : Quoting) (d : Derivation) {level : UInt64}
    (h : level.toNat + d.depth < 2 ^ 64) :
    (d.records level).map (Record.message q) = Term.narrationAll q level.toNat d.terms := by
  induction d generalizing level with
  | nil => rfl
  | stem ls hs => rfl
  | name ls ds hl hd rest ih =>
    rw [records, List.map_cons, ih h]
    rfl
  | group body rest ihb ih =>
    rw [depth] at h
    have hlevel : level.toNat + 1 < 2 ^ 64 := by omega
    have hsucc := Machine.toNat_add_one hlevel
    have hin : (level + 1).toNat + body.depth < 2 ^ 64 := by omega
    have hout : level.toNat + rest.depth < 2 ^ 64 := by omega
    rw [terms, Term.narrationAll, Term.narration_group, ← hsucc, ← ihb hin, ← ih hout, records,
      ← body.sourceAll_terms]
    simp only [List.map_cons, List.map_append, Term.message_reading, Record.message_foundGroup,
      List.cons_append, List.append_assoc, List.nil_append]
  | lambda ls ds hne hl hd body rest ihb ih =>
    rw [depth] at h
    have hlevel : level.toNat + 1 < 2 ^ 64 := by omega
    have hsucc := Machine.toNat_add_one hlevel
    have hin : (level + 1).toNat + body.depth < 2 ^ 64 := by omega
    have hout : level.toNat + rest.depth < 2 ^ 64 := by omega
    rw [terms, Term.narrationAll, Term.narration_lambda, ← hsucc, ← ihb hin, ← ih hout, records,
      ← body.sourceAll_terms]
    simp only [List.map_cons, List.map_append, Term.message_reading, Record.message_foundLambda,
      List.cons_append, List.append_assoc, List.nil_append]

/-- Each node has one record that it is complete. -/
theorem filterMap_found?_records (d : Derivation) (level : UInt64) :
    (d.records level).filterMap Record.found? = Term.nodesAll d.terms := by
  induction d generalizing level with
  | nil => rfl
  | stem ls hs => rfl
  | name ls ds hl hd rest ih =>
    rw [records, terms, Term.nodesAll, ← ih level]
    rfl
  | group body rest ihb ih =>
    rw [terms, Term.nodesAll, Term.nodes_group, List.append_assoc, ← ihb (level + 1), ← ih level,
      records, List.filterMap_cons_none rfl, List.filterMap_append]
    rfl
  | lambda ls ds hne hl hd body rest ihb ih =>
    rw [terms, Term.nodesAll, Term.nodes_lambda, List.append_assoc, ← ihb (level + 1), ← ih level,
      records, List.filterMap_cons_none rfl, List.filterMap_append]
    rfl

end Derivation

namespace Machine

variable {limit level : UInt64} {s : Text}

theorem debug_run_of_derivation {d : Derivation} (h : s.length < 2 ^ 31) (hs : d.text = s.raised)
    (hrun : ((standard limit).run (standard limit).parseBody s level).value = .ok d.terms) :
    ((standard limit).run (standard limit).parseBody s level).log.debug =
      d.pieces.flatMap (Piece.records (standard limit).parseBody level) := by
  rw [debug_run (Pending.fits_of_depth_eq_zero rfl (by rwa [length_raised])) hrun, ← hs, d.cut_text]

/-- A derived body within the limit is read as its terms, after the record that it is read and with
those of its pieces. -/
theorem parseBody_of_derivation {b : Derivation} (h : b.text.length < 2 ^ 31)
    (hl : level.toNat + b.depth ≤ limit.toNat) :
    ((standard limit).parseBody b.text level).value = .ok b.terms ∧
      ((standard limit).parseBody b.text level).log.debug = .reading b.text level ::
        b.pieces.flatMap (Piece.records (standard limit).parseBody level) := by
  have hdepth : b.depth < 2 ^ 31 := b.depth_le_length.trans_lt h
  have hle : level ≤ limit := UInt64.le_iff_toNat_le.2 (by omega)
  have hread : ((standard limit).parseBody b.text level).value = .ok b.terms :=
    bodies_of_derivation hdepth (UInt64.not_lt.2 hle)
      (mapM_pieces b hdepth hl (Nat.le_of_add_left_le hl))
  refine ⟨hread, ?_⟩
  rw [parseBody_of_le hle] at hread ⊢
  rw [Log.debug_append, debug_run_of_derivation h b.raised_text.symm (mapError_eq_ok_iff.1 hread)]
  rfl

/-- So it is one level further in, below the limit. -/
theorem inner_of_derivation {b : Derivation} (h : b.text.length < 2 ^ 31)
    (hlt : level.toNat < limit.toNat) (hl : level.toNat + 1 + b.depth ≤ limit.toNat) :
    ((standard limit).parseBody.inner b.text level).value = .ok b.terms ∧
      ((standard limit).parseBody.inner b.text level).log.debug = .reading b.text (level + 1) ::
        b.pieces.flatMap (Piece.records (standard limit).parseBody (level + 1)) := by
  have hsucc := toNat_succ_of_lt hlt
  have hlim := UInt64.toNat_lt limit
  rw [BodyReader.inner_of_lt (show level.toNat + 1 < 2 ^ 64 by omega)]
  exact parseBody_of_derivation h (by omega)

/-- The pieces of a derivation write its records. -/
theorem records_pieces (d : Derivation) (h : d.text.length < 2 ^ 31)
    (hl : level.toNat + d.depth ≤ limit.toNat) :
    d.pieces.flatMap (Piece.records (standard limit).parseBody level) = d.records level := by
  induction d generalizing level with
  | nil => rfl
  | stem ls hs => rfl
  | name ls ds hls hds rest ih =>
    have hrest := ih ((List.suffix_append ..).length_le.trans_lt h) hl
    rw [Derivation.pieces, List.flatMap_cons, hrest]
    rfl
  | group body rest ihb ih =>
    rw [Derivation.depth] at hl
    have henc : Encloses (Derivation.group body rest).text body.text :=
      (List.prefix_append ..).isInfix
    have hlen := henc.length_le
    have hlt : level.toNat < limit.toNat := by omega
    have hsucc := toNat_succ_of_lt hlt
    have hin : level.toNat + 1 + body.depth ≤ limit.toNat := by omega
    have hout : level.toNat + rest.depth ≤ limit.toNat := by omega
    obtain ⟨hread, hbody⟩ := inner_of_derivation (by omega) hlt hin
    rw [← hsucc] at hin
    have hinner := ihb (by omega) hin
    have hrest := ih ((List.suffix_append ..).length_le.trans_lt h) hout
    rw [Derivation.pieces, List.flatMap_cons, hrest, Piece.records_group hread, hbody, hinner]
    simp [Derivation.records]
  | lambda ls ds hne hls hds body rest ihb ih =>
    rw [Derivation.depth] at hl
    have henc : Encloses (Derivation.lambda ls ds hne hls hds body rest).text body.text := by
      rw [Derivation.text_lambda, ← List.append_assoc]
      exact List.infix_append _ _ _
    have hlen := henc.length_le
    have hlt : level.toNat < limit.toNat := by omega
    have hsucc := toNat_succ_of_lt hlt
    have hin : level.toNat + 1 + body.depth ≤ limit.toNat := by omega
    have hout : level.toNat + rest.depth ≤ limit.toNat := by omega
    obtain ⟨hread, hbody⟩ := inner_of_derivation (by omega) hlt hin
    rw [← hsucc] at hin
    have hinner := ihb (by omega) hin
    have hrest := ih ((List.suffix_append ..).length_le.trans_lt h) hout
    rw [Derivation.pieces, List.flatMap_cons, hrest, Piece.records_lambda hread, hbody, hinner]
    simp [Derivation.records]

/-- **The log tells the terms.** The records of importance `debug` of a text that is read go through
its terms in order: each name, group and lambda has one record that it is complete, after those of
what stands in its parentheses, and these come after a record of their text and its level. -/
theorem debug_of_parse {ts : List Term} (q : Quoting) (hs : s.length < 2 ^ 31)
    (h : ((standard limit).parse s).value = .ok ts) :
    ((standard limit).parse s).log.debug.map (Record.message q) = Term.narrationAll q 0 ts ∧
      ((standard limit).parse s).log.debug.filterMap Record.found? = Term.nodesAll ts := by
  have h0 : (0 : UInt64).toNat = 0 := rfl
  obtain ⟨d, htext, hd, rfl⟩ := exists_derivation_of_parse hs h
  have hdepth : d.depth ≤ limit.toNat := hd
  have hlen : d.text.length < 2 ^ 31 := by rwa [htext, length_raised]
  have hlim := UInt64.toNat_lt limit
  have hdebug : ((standard limit).parse s).log.debug = d.records 0 := by
    have hle : (0 : UInt64).toNat + d.depth ≤ limit.toNat := by omega
    rw [← records_pieces d hlen hle]
    exact debug_run_of_derivation hs htext h
  rw [hdebug]
  exact ⟨d.map_message_records q (by omega), d.filterMap_found?_records 0⟩

/-- A lambda and a name in a group: the name is complete only with the parenthesis after it. -/
theorem debug_of_lambda_in_group :
    let s := "(lx2.(b)c)".toList
    let bound := Term.lambda "X2".toList (.group [.var "B".toList])
    let outer := Term.group [bound, .var "C".toList]
    s.length < 2 ^ 31 ∧ ((standard 2).parse s).value = .ok [outer] ∧
      ((standard 2).parse s).log.debug.map (Record.message .standard) =
        ["Parsing captured text \x22LX2.(B)C\x22 at level 1".toList,
          "Parsing captured text \x22B\x22 at level 2".toList,
          "Captured variable B".toList,
          "Captured lambda λX2.B".toList,
          "Captured variable C".toList,
          "Captured parenthetical (λX2.BC)".toList] ∧
      ((standard 2).parse s).log.debug.filterMap Record.found? =
        [.var "B".toList, bound, .var "C".toList, outer] := by
  have hlen : "(lx2.(b)c)".toList.length < 2 ^ 31 := by decide
  have hread : ((standard 2).parse "(lx2.(b)c)".toList).value =
      .ok [.group [.lambda "X2".toList (.group [.var "B".toList]), .var "C".toList]] := by cbv
  obtain ⟨htold, hfound⟩ := debug_of_parse .standard hlen hread
  exact ⟨hlen, hread, htold.trans (by decide +kernel), hfound.trans rfl⟩

end Machine

end LambdaNotation
