import Dawn.Lib.Lemon

/-!
# Parsers that follow an automaton

If the sentences of a grammar are those of a finite automaton, then it is known which tokens a parser of Lemon's
keeps: those for which the automaton has a transition. After a token that is thrown away it is fewer, since the
parser has then completed all the phrases that it could (`shut`).

That the parser follows the automaton is a property of the pairs of states that the two are in together, which are
finitely many (`Certified`): in each the parser can go on with the tokens that the automaton goes on with.
Phrases are followed by weakest preconditions (`Automaton.wp`).
-/

namespace Dawn

open LemonGrammar

/-- A deterministic automaton, with the states to which the phrases of a nonterminal may lead. -/
structure Automaton (T N Q : Type) where
  start : Q
  next : Q → T → Option Q
  accepts : Q → Bool
  phrase : N → Q → List Q

namespace Automaton

variable {T N Q : Type} (D : Automaton T N Q)

def run (q : Q) (w : List T) : Option Q := w.foldlM D.next q

/-- The states after a symbol. -/
def after : Symbol T N → Q → List Q
  | .terminal a, q => (D.next q a).toList
  | .nonterminal A, q => D.phrase A q

/-- The automaton goes on with a token, or with the end. -/
def goes (q : Q) : Option T → Bool
  | none => D.accepts q
  | some a => (D.next q a).isSome

/-- The weakest precondition of some symbols: each can be passed, and after all of them `post` holds. -/
def wp (post : Q → Prop) : List (Symbol T N) → Q → Prop
  | [], q => post q
  | X :: α, q => D.after X q ≠ [] ∧ ∀ q' ∈ D.after X q, wp post α q'

instance decidableWp [DecidableEq Q] {post : Q → Prop} [DecidablePred post] :
    (α : List (Symbol T N)) → (q : Q) → Decidable (D.wp post α q)
  | [], q => inferInstanceAs (Decidable (post q))
  | X :: α, q =>
    have : DecidablePred (D.wp post α) := decidableWp α
    inferInstanceAs (Decidable (D.after X q ≠ [] ∧ ∀ q' ∈ D.after X q, D.wp post α q'))

variable {D} {post : Q → Prop} {α β : List (Symbol T N)} {q : Q} {w : List T}

theorem wp_append : D.wp post (α ++ β) q ↔ D.wp (D.wp post β) α q := by
  induction α generalizing q with
  | nil => exact Iff.rfl
  | cons X α ih => exact and_congr_right fun _ => forall₂_congr fun q' _ => ih

theorem wp.mono {post' : Q → Prop} (hpost : ∀ q, post q → post' q) (h : D.wp post α q) : D.wp post' α q := by
  induction α generalizing q with
  | nil => exact hpost q h
  | cons X α ih => exact ⟨h.1, fun q' hq' => ih (h.2 q' hq')⟩

theorem wp_terminals : D.wp post (w.map .terminal) q ↔ ∃ q', D.run q w = some q' ∧ post q' := by
  induction w generalizing q with
  | nil => simp [wp, run]
  | cons a w ih =>
    cases hn : D.next q a with
    | none => simp [wp, run, after, hn]
    | some q1 => simp [wp, run, after, hn, ih]

/-- The phrases of a rule lead where those of its nonterminal may. -/
def Respects (D : Automaton T N Q) (G : LemonGrammar T N) : Prop :=
  ∀ r ∈ G.rules, ∀ q, D.phrase r.input q ≠ [] → D.wp (· ∈ D.phrase r.input q) r.output q

variable [DecidableEq T] [DecidableEq N] {G : LemonGrammar T N}

theorem Respects.derives (hD : D.Respects G) (hder : G.toCFG.Derives α β) (h : D.wp post α q) : D.wp post β q := by
  induction hder with
  | refl => exact h
  | tail _ hstep ih =>
    obtain ⟨r, hr, hrew⟩ := hstep
    obtain ⟨u, v, rfl, rfl⟩ := hrew.exists_parts
    simp only [wp_append] at ih ⊢
    refine ih.mono fun q' hq' => ?_
    exact (hD r (by simpa using hr) q' hq'.1).mono fun q1 hq1 => hq'.2 q1 hq1

theorem Respects.run_phrase (hD : D.Respects G) {X : Symbol T N} (hder : G.toCFG.Derives [X] (w.map .terminal))
    (hlive : D.after X q ≠ []) : ∃ q', D.run q w = some q' ∧ q' ∈ D.after X q :=
  wp_terminals.mp (hD.derives hder ⟨hlive, fun _ h => h⟩)

end Automaton

theorem eq_of_derives_terminal {T : Type} {G : ContextFreeGrammar T} {a : T} {β : List (Symbol T G.NT)}
    (h : G.Derives [.terminal a] β) : β = [.terminal a] := by
  induction h with
  | refl => rfl
  | tail _ hstep ih =>
    obtain ⟨r, -, hrew⟩ := hstep
    subst ih
    obtain ⟨u, v, heq, -⟩ := hrew.exists_parts
    have hmem : Symbol.nonterminal r.input ∈ [(Symbol.terminal a : Symbol T G.NT)] := heq ▸ by simp
    simp at hmem

/-- An automaton with what a parser is known to do by it. -/
structure Guide (T N Q : Type) extends Automaton T N Q where
  /-- The tokens, and the end, for which a phrase of a nonterminal is completed. -/
  follow : N → Option T → Bool
  /-- The tokens that are no longer taken when all phrases are completed. -/
  shut : Q → T → Bool
  /-- A bound for the height of the stack, not counting `deep`. -/
  rank : List (Item T N) → ℕ
  maxRank : ℕ
  /-- The terminal that may pile up on the stack. -/
  deep : T

namespace Guide

variable {T N Q : Type} [DecidableEq T] [DecidableEq N] (D : Guide T N Q) (G : LemonGrammar T N)

/-- Whether the automaton keeps a token. `closed` is set after one that was thrown away. -/
def takes (closed : Bool) (q : Q) (a : T) : Bool := D.goes q (some a) && !(closed && D.shut q a)

/-- The tokens that are kept. -/
def left (closed : Bool) (q : Q) : List T → List T
  | [] => []
  | a :: w =>
    if D.takes closed q a then a :: left false ((D.next q a).getD q) w else left true q w

omit [DecidableEq T] [DecidableEq N] in
theorem left_sublist (closed : Bool) (q : Q) (w : List T) : (D.left closed q w).Sublist w := by
  induction w generalizing closed q with
  | nil => exact List.Sublist.refl []
  | cons a w ih =>
    rw [left]
    split_ifs
    · exact (ih ..).cons_cons a
    · exact (ih ..).cons a

/-- A token may come after a symbol that is on top of the stack. -/
def mayFollow : Symbol T N → Option T → Bool
  | .terminal _, _ => true
  | .nonterminal A, a => D.follow A a

/-- A state has an action for a token or for the end, after which it may still come. -/
def ready (basis : List (Item T N)) (a : Option T) : Bool :=
  a.any (G.shifts basis) ||
    (G.complete basis).any fun r => if r.input = G.start then a.isNone else D.follow r.input a

/-- The symbols that may be pushed on a state. -/
def nexts (basis : List (Item T N)) : List (Symbol T N) :=
  ((G.closure basis).filterMap Item.next).dedup.filter (G.pushes basis)

/-- In this pair of states the parser can go on with the tokens that the automaton goes on with. -/
def Good (tokens : List T) (x : Q × List (Item T N)) : Prop :=
  D.rank x.2 ≤ D.maxRank ∧
  (∀ X ∈ nexts G x.2, D.after X x.1 ≠ [] ∧
    D.rank x.2 + (if X = .terminal D.deep then 0 else 1) ≤ D.rank (G.goto x.2 X) ∧
    ∀ q ∈ D.after X x.1, ∀ a ∈ none :: tokens.map some, D.goes q a = true → D.mayFollow X a = true →
      D.ready G (G.goto x.2 X) a = true) ∧
  ((∀ r ∈ G.complete x.2, r.input = G.start) →
    (∀ a ∈ tokens, G.shifts x.2 a = (D.goes x.1 (some a) && !D.shut x.1 a)) ∧
    (D.accepts x.1 = true → G.complete x.2 ≠ none))

/-- The pairs after one. -/
def succs (x : Q × List (Item T N)) : List (Q × List (Item T N)) :=
  (nexts G x.2).flatMap fun X => (D.after X x.1).map fun q => (q, G.goto x.2 X)

/-- What is reached from `todo` in some number of steps, none if there is more. -/
def explore {α : Type} [DecidableEq α] (f : α → List α) : ℕ → List α → List α → Option (List α)
  | 0, _, _ => none
  | _ + 1, [], done => some done
  | fuel + 1, x :: todo, done =>
    if x ∈ done then explore f fuel todo done else explore f fuel (f x ++ todo) (x :: done)

theorem explore_closed {α : Type} [DecidableEq α] {f : α → List α} {fuel : ℕ} {todo done l : List α}
    (h : explore f fuel todo done = some l) (hdone : ∀ x ∈ done, ∀ y ∈ f x, y ∈ todo ∨ y ∈ done) :
    (∀ x ∈ todo, x ∈ l) ∧ (∀ x ∈ done, x ∈ l) ∧ ∀ x ∈ l, ∀ y ∈ f x, y ∈ l := by
  induction fuel generalizing todo done with
  | zero => cases h
  | succ fuel ih =>
    cases todo with
    | nil =>
      obtain rfl := Option.some_injective _ h
      exact ⟨by simp, fun _ h => h, fun x hx y hy => (hdone x hx y hy).resolve_left (by simp)⟩
    | cons x todo =>
      rw [explore] at h
      split_ifs at h with hx
      · obtain ⟨htodo, hsub, hclosed⟩ := ih h (by grind)
        exact ⟨List.forall_mem_cons.mpr ⟨hsub x hx, htodo⟩, hsub, hclosed⟩
      · obtain ⟨htodo, hsub, hclosed⟩ := ih h (by grind)
        exact ⟨List.forall_mem_cons.mpr ⟨hsub x List.mem_cons_self, fun y hy => htodo y (List.mem_append_right _ hy)⟩,
          fun y hy => hsub y (List.mem_cons_of_mem _ hy), hclosed⟩

/-- All pairs of states that the parser and the automaton can be in together are good. -/
structure Certified (pairs : List (Q × List (Item T N))) : Prop where
  respects : D.Respects G
  accepts : D.wp (fun q => D.accepts q = true) [.nonterminal G.start] D.start
  first : ∀ a, D.goes D.start a = true → D.ready G G.startBasis a = true
  start : (D.start, G.startBasis) ∈ pairs
  closed : ∀ x ∈ pairs, ∀ y ∈ D.succs G x, y ∈ pairs
  good : ∃ tokens, (∀ a, a ∈ tokens) ∧ ∀ x ∈ pairs, D.Good G tokens x

variable {D G} {pairs : List (Q × List (Item T N))} (hC : D.Certified G pairs)
  {q q' : Q} {basis : List (Item T N)} {X : Symbol T N}

theorem mem_nexts (h : G.pushes basis X = true) : X ∈ nexts G basis := by
  obtain ⟨it, hit⟩ := List.exists_mem_of_ne_nil _ (goto_ne_nil_of_pushes h)
  obtain ⟨it', hit', hn, -⟩ := mem_goto.mp hit
  exact List.mem_filter.mpr ⟨List.mem_dedup.mpr (List.mem_filterMap.mpr ⟨it', hit', hn⟩), h⟩

include hC

theorem Certified.rank_le (h : (q, basis) ∈ pairs) : D.rank basis ≤ D.maxRank := by
  obtain ⟨_, -, hgood⟩ := hC.good
  exact (hgood _ h).1

theorem Certified.push (h : (q, basis) ∈ pairs) (hX : G.pushes basis X = true) : D.after X q ≠ [] ∧
    D.rank basis + (if X = .terminal D.deep then 0 else 1) ≤ D.rank (G.goto basis X) ∧
    ∀ q' ∈ D.after X q, (q', G.goto basis X) ∈ pairs ∧ ∀ a, D.goes q' a = true → D.mayFollow X a = true →
      D.ready G (G.goto basis X) a = true := by
  obtain ⟨tokens, htokens, hgood⟩ := hC.good
  obtain ⟨hlive, hrank, hready⟩ := (hgood _ h).2.1 X (mem_nexts hX)
  refine ⟨hlive, hrank, fun q' hq' => ⟨hC.closed _ h _ ?_, fun a => hready q' hq' a ?_⟩⟩
  · exact List.mem_flatMap.mpr ⟨X, mem_nexts hX, List.mem_map.mpr ⟨q', hq', rfl⟩⟩
  · cases a with
    | none => exact List.mem_cons_self
    | some a => exact List.mem_cons_of_mem _ (List.mem_map.mpr ⟨a, htokens a, rfl⟩)

theorem Certified.settled (h : (q, basis) ∈ pairs) (hs : Lemon.Settled G basis) :
    (∀ a, G.shifts basis a = (D.goes q (some a) && !D.shut q a)) ∧ (D.accepts q = true → G.complete basis ≠ none) := by
  obtain ⟨tokens, htokens, hgood⟩ := hC.good
  obtain ⟨hshift, hend⟩ := (hgood _ h).2.2 hs
  exact ⟨fun a => hshift a (htokens a), hend⟩

theorem Certified.run_of_mem_language {w : List T} (hw : w ∈ G.toCFG.language) :
    ∃ q, D.run D.start w = some q ∧ D.accepts q = true :=
  Automaton.wp_terminals.mp (hC.respects.derives hw hC.accepts)

end Guide

/-! ## What the parser does -/

namespace Lemon

variable {T N Q τ S U : Type} [DecidableEq T] [DecidableEq N] {P : Lemon T N τ S U} {D : Guide T N Q}
  {pairs : List (Q × List (Item T N))} {V : Symbol T N → S → List T → Prop} {w : List T} {q : Q}
  {a : Option τ} {s s' : State T N S U} {closed : Bool} {r : ContextFreeRule T N}

/-- The parser and the automaton are in one of the pairs, and so they were below the topmost entry. -/
theorem tracked (hC : D.Certified P.grammar pairs) {stack : List (Entry T N S)} (hlink : P.grammar.Linked stack)
    (hw : Yields (P.Stands V) stack w) :
    ∃ q, D.run D.start w = some q ∧ (q, P.grammar.top stack) ∈ pairs ∧
      stack.length ≤ D.rank (P.grammar.top stack) + w.count D.deep ∧
      ∀ e rest, stack = e :: rest → ∃ q0, (q0, P.grammar.top rest) ∈ pairs ∧ q ∈ D.after e.major q0 := by
  induction stack generalizing w with
  | nil =>
    obtain rfl : w = [] := hw
    exact ⟨D.start, rfl, hC.start, Nat.zero_le _, fun e rest h => by cases h⟩
  | cons e rest ih =>
    obtain ⟨w', u, rfl, hw', hder, -⟩ := hw
    obtain ⟨hbasis, hpush, hlink⟩ := hlink
    obtain ⟨q0, hrun, hpair, hlen, -⟩ := ih hlink hw'
    obtain ⟨hlive, hrank, hafter⟩ := hC.push hpair hpush
    obtain ⟨q, hq, hmem⟩ := hC.respects.run_phrase hder hlive
    refine ⟨q, ?_, ?_, ?_, fun e' rest' h => ?_⟩
    · rw [Automaton.run, List.foldlM_append, ← Automaton.run, hrun]
      exact hq
    · rw [LemonGrammar.top, hbasis]
      exact (hafter q hmem).1
    · rw [LemonGrammar.top, hbasis, List.count_append, List.length_cons]
      by_cases hdeep : e.major = .terminal D.deep
      · rw [hdeep] at hder
        obtain rfl : u = [D.deep] :=
          List.map_injective_iff.mpr (fun _ _ h => by cases h; rfl) (eq_of_derives_terminal hder)
        rw [if_pos hdeep] at hrank
        simp only [List.count_singleton_self]
        omega
      · rw [if_neg hdeep] at hrank
        omega
    · obtain ⟨rfl, rfl⟩ := List.cons.inj h
      exact ⟨q0, hpair, hmem⟩

/-- The parser has kept `w`, which leads the automaton to `q`. It has completed all phrases that it could, or it can
go on with every token that the automaton goes on with. -/
structure Guided (P : Lemon T N τ S U) (D : Guide T N Q) (V : Symbol T N → S → List T → Prop) (closed : Bool)
    (w : List T) (q : Q) (s : State T N S U) : Prop where
  keeps : P.Keeps V w s
  run : D.run D.start w = some q
  settled : closed = true → Settled P.grammar (P.grammar.top s.yystack)
  ready : closed = false → ∀ a, D.goes q a = true → D.ready P.grammar (P.grammar.top s.yystack) a = true

/-- All that can be kept of the tokens fits on the stack. -/
def Fits (P : Lemon T N τ S U) (D : Guide T N Q) (w : List T) : Prop := D.maxRank + w.count D.deep ≤ P.stackDepth

section Guided

variable (hC : D.Certified P.grammar pairs)
include hC

theorem Keeps.pair (h : P.Keeps V w s) (hq : D.run D.start w = some q) : (q, P.grammar.top s.yystack) ∈ pairs ∧
    s.yystack.length ≤ D.rank (P.grammar.top s.yystack) + w.count D.deep := by
  obtain ⟨q', hq', hpair, hlen, -⟩ := tracked hC h.linked h.yields
  obtain rfl := Option.some_injective _ (hq.symm.trans hq')
  exact ⟨hpair, hlen⟩

theorem Keeps.room (h : P.Keeps V w s) (hq : D.run D.start w = some q) (hfits : P.Fits D w)
    (hc : P.grammar.complete (P.grammar.top s.yystack) = some r) (hs : r.input ≠ P.grammar.start)
    (hnil : r.output = []) : s.yystack.length < P.stackDepth := by
  obtain ⟨hpair, hlen⟩ := h.pair hC hq
  obtain ⟨-, -, -, hbegin⟩ := h.linked.complete hc
  rw [hnil] at hbegin
  have hpush : P.grammar.pushes (P.grammar.top s.yystack) (.nonterminal r.input) = true := by
    simpa [LemonGrammar.pushes] using h.linked.goto_ne_nil hbegin hs
  obtain ⟨hlive, hrank, hafter⟩ := hC.push hpair hpush
  obtain ⟨q', hq'⟩ := List.exists_mem_of_ne_nil _ hlive
  have hle := hC.rank_le (hafter q' hq').1
  rw [if_neg (by simp)] at hrank
  unfold Fits at hfits
  omega

/-- The last turn of a call, and what is known before it. -/
theorem Guided.last_turn (hV : Types P V) (h : P.Guided D V closed w q s) (hp : P.parse a s = some s') :
    ∃ s1, P.Keeps V w s1 ∧ s1.arg = s.arg ∧ (closed = true → s1 = s) ∧
      (closed = false → D.goes q (a.map P.major) = true →
        D.ready P.grammar (P.grammar.top s1.yystack) (a.map P.major) = true) ∧
      P.step a s1 = some (false, s') := by
  have hI := parse_cases (I := fun s1 => P.Keeps V w s1 ∧ s1.arg = s.arg ∧ (closed = true → s1 = s) ∧
      (closed = false → D.goes q (a.map P.major) = true →
        D.ready P.grammar (P.grammar.top s1.yystack) (a.map P.major) = true))
    (fun s1 s2 ⟨h1, harg, hsame, hready⟩ hstep => ?_) ⟨h.keeps, rfl, fun _ => rfl, fun hc => h.ready hc _⟩ hp
  · obtain ⟨s1, ⟨h1, harg, hsame, hready⟩, hstep⟩ := hI
    exact ⟨s1, h1, harg, hsame, hready, hstep⟩
  · obtain ⟨r, hc, hs, hroom, hred, hshift⟩ := step_again hstep
    have h2 := h1.reduce hV hc hroom hred
    obtain ⟨v, -, -, rfl⟩ := reduce_eq_some hred
    refine ⟨h2, harg, fun hclosed => ?_, fun hopen hgoes => ?_⟩
    · obtain rfl := hsame hclosed
      exact absurd (h.settled hclosed r hc) hs
    · -- The token is none that the state shifts, so it may follow the phrase that is completed.
      have hfollow : D.follow r.input (a.map P.major) = true := by
        have := hready hopen hgoes
        cases a with
        | none => simpa [Guide.ready, hc, hs] using this
        | some t => simpa [Guide.ready, hc, hs, hshift t rfl] using this
      obtain ⟨q', hq', -, -, hbelow⟩ := tracked hC h2.linked h2.yields
      obtain rfl := Option.some_injective _ (h.run.symm.trans hq')
      obtain ⟨q0, hpair, hmem⟩ := hbelow _ _ rfl
      exact ((hC.push hpair h2.linked.2.1).2.2 q hmem).2 _ hgoes hfollow

/-- A token is kept or thrown away as the automaton says. -/
theorem Guided.parse_token (hV : Types P V) {t : τ} (h : P.Guided D V closed w q s)
    (ht : V (.terminal (P.major t)) (P.minor t) [P.major t]) (hfits : P.Fits D (w ++ [P.major t]))
    (hp : P.parse (some t) s = some s') :
    (if D.takes closed q (P.major t) then
      P.Guided D V false (w ++ [P.major t]) ((D.next q (P.major t)).getD q) s' else P.Guided D V true w q s') ∧
    (s'.arg = s.arg ∨ s'.arg = P.syntaxError s.arg) := by
  obtain ⟨s1, h1, harg, hsame, hready, hstep⟩ := h.last_turn hC hV hp
  obtain ⟨hpair, hlen⟩ := h1.pair hC h.run
  have hfits' : P.Fits D w := le_trans (by simp [List.count_append]) hfits
  rcases step_token hstep with ⟨hsh, rfl⟩ | ⟨hsh, hset, rfl⟩ | ⟨r, hc, hs, hnil, hfull, -⟩
  · obtain ⟨hlive, hrank, hafter⟩ := hC.push (X := .terminal (P.major t)) hpair hsh
    obtain ⟨q', hq'⟩ : ∃ q', D.next q (P.major t) = some q' :=
      Option.ne_none_iff_exists'.mp fun hn => hlive (by simp [Automaton.after, hn])
    obtain ⟨hpair', hready'⟩ := hafter q' (by simp [Automaton.after, hq'])
    have hroom : s1.yystack.length < P.stackDepth := by
      have hle := hC.rank_le hpair'
      unfold Fits at hfits
      rw [List.count_append] at hfits
      by_cases hdeep : P.major t = D.deep
      · simp only [hdeep, if_true, List.count_singleton_self] at hrank hfits
        rw [hdeep] at hle
        omega
      · rw [if_neg (by simpa using hdeep)] at hrank
        omega
    have htakes : D.takes closed q (P.major t) = true := by
      unfold Guide.takes
      cases closed with
      | false => simp [Automaton.goes, hq']
      | true =>
        obtain rfl := hsame rfl
        have := (hC.settled hpair (h.settled rfl)).1 (P.major t)
        rw [hsh] at this
        simpa using this.symm
    rw [if_pos htakes, hq']
    refine ⟨⟨h1.shift ht hsh hroom, ?_, fun hc => absurd hc (by decide), fun _ b hb => ?_⟩, Or.inl ?_⟩
    · rw [Automaton.run, List.foldlM_append, ← Automaton.run, h.run]
      simpa using hq'
    · rw [Lemon.shift, if_pos hroom]
      exact hready' b hb rfl
    · rw [Lemon.shift, if_pos hroom]
      exact harg
  · have htakes : D.takes closed q (P.major t) = false := by
      have hshift := (hC.settled hpair hset).1 (P.major t)
      rw [hsh] at hshift
      cases closed with
      | true => simpa [Guide.takes] using hshift.symm
      | false =>
        by_contra hgoes
        have := hready rfl (by simpa [Guide.takes] using hgoes)
        cases hc : P.grammar.complete (P.grammar.top s1.yystack) with
        | none => simp [Guide.ready, hsh, hc] at this
        | some r => simp [Guide.ready, hsh, hc, hset r hc] at this
    rw [if_neg (by simp [htakes])]
    refine ⟨⟨⟨h1.linked, h1.yields, h1.depth⟩, h.run, fun _ => hset, fun hc => absurd hc (by decide)⟩, harg ▸ arg_error ..⟩
  · exact absurd (h1.room hC h.run hfits' hc hs hnil) (by omega)

/-- The end is accepted as the automaton says. -/
theorem Guided.parse_end (hV : Types P V) (h : P.Guided D V closed w q s) (hfits : P.Fits D w)
    (hp : P.parse none s = some s') :
    (D.accepts q = true ∧ w ∈ P.grammar.toCFG.language ∧ ∃ r ∈ P.grammar.rules, r.input = P.grammar.start ∧
      ∃ ps, Parts V r.output ps ∧ w = ps.flatMap Prod.snd ∧ P.finish (ps.map Prod.fst) s.arg = some s'.arg) ∨
    (D.accepts q = false ∧ (s'.arg = s.arg ∨ s'.arg = P.syntaxError s.arg)) := by
  obtain ⟨s1, h1, harg, hsame, hready, hstep⟩ := h.last_turn hC hV hp
  obtain ⟨hpair, -⟩ := h1.pair hC h.run
  rcases step_end hstep with ⟨r, hc, hs, hacc⟩ | ⟨hc, rfl⟩ | ⟨r, hc, hs, hnil, hfull, -⟩
  · obtain ⟨hw, ps, hps, hflat, hfin⟩ := h1.accept hc hs hacc
    obtain ⟨q', hq', haccepts⟩ := hC.run_of_mem_language hw
    obtain rfl := Option.some_injective _ (h.run.symm.trans hq')
    exact Or.inl ⟨haccepts, hw, r, (h1.linked.complete hc).1, hs, ps, hps, hflat, harg ▸ hfin⟩
  · refine Or.inr ⟨?_, harg ▸ arg_error ..⟩
    by_contra haccepts
    rw [Bool.not_eq_false] at haccepts
    cases closed with
    | true =>
      obtain rfl := hsame rfl
      exact (hC.settled hpair (h.settled rfl)).2 haccepts hc
    | false =>
      have := hready rfl haccepts
      simp [Guide.ready, hc] at this
  · exact absurd (h1.room hC h.run hfits hc hs hnil) (by omega)

theorem guided_init (arg : U) : P.Guided D V false [] D.start (init arg) :=
  ⟨keeps_nil rfl, rfl, nofun, fun _ => hC.first⟩

variable {Ok : List T → Prop} {weight : Symbol T N → ℤ} {bound : ℕ} (hdef : Defined P V Ok)
  (hL : Lightens P.grammar weight bound)
include hdef hL

/-- The calls for some tokens return, and keep those that the automaton keeps. -/
theorem Guided.feed (hV : Types P V) {ts : List τ} {I : U → Prop} (hI : ∀ u, I u → I (P.syntaxError u))
    (h : P.Guided D V closed w q s) (hts : ∀ t ∈ ts, V (.terminal (P.major t)) (P.minor t) [P.major t])
    (hfits : P.Fits D (w ++ ts.map P.major)) (hok : ∀ u, u.Sublist (w ++ ts.map P.major) → Ok u) (h0 : I s.arg) :
    ∃ s' closed' q', P.feed s ts = some s' ∧ I s'.arg ∧
      P.Guided D V closed' (w ++ D.left closed q (ts.map P.major)) q' s' := by
  induction ts generalizing s w q closed with
  | nil => exact ⟨s, closed, q, rfl, h0, by simpa [Guide.left] using h⟩
  | cons t ts ih =>
    have hfits1 : P.Fits D (w ++ [P.major t]) :=
      le_trans (Nat.add_le_add_left (List.Sublist.count_le _ (by simp)) _) hfits
    obtain ⟨s1, hp⟩ := Option.ne_none_iff_exists'.mp
      (parse_ne_none hdef hL hV h.keeps (fun u hu => hok u (hu.sublist.trans (by simp))) (a := some t))
    obtain ⟨hstep, harg⟩ := h.parse_token hC hV (hts t List.mem_cons_self) hfits1 hp
    have h1 : I s1.arg := by
      rcases harg with harg | harg
      · exact harg ▸ h0
      · exact harg ▸ hI _ h0
    rw [Lemon.feed, List.foldlM_cons, hp, List.map_cons, Guide.left]
    split_ifs at hstep ⊢ with htakes
    · obtain ⟨s', closed', q', hf, hI', h'⟩ := ih hstep (fun t ht => hts t (List.mem_cons_of_mem _ ht))
        (by simpa using hfits) (by simpa using hok) h1
      exact ⟨s', closed', q', hf, hI', by simpa using h'⟩
    · have hsub : (w ++ ts.map P.major).Sublist (w ++ (t :: ts).map P.major) := by simp
      exact ih hstep (fun t ht => hts t (List.mem_cons_of_mem _ ht))
        (le_trans (Nat.add_le_add_left (hsub.count_le _) _) hfits) (fun u hu => hok u (hu.trans hsub)) h1

end Guided

/-! ## The language -/

/-- A parser that keeps no values, with a stack of some depth. -/
def recognizer (G : LemonGrammar T N) (stackDepth : ℕ) : Lemon T N T Unit Unit where
  grammar := G
  stackDepth := stackDepth
  major := id
  minor _ := ()
  act _ _ := some ()
  finish _ _ := some ()
  syntaxError _ := ()

omit [DecidableEq T] [DecidableEq N] in
theorem left_eq_self {q' : Q} (h : D.run q w = some q') : D.left false q w = w := by
  induction w generalizing q with
  | nil => rfl
  | cons a w ih =>
    rw [Automaton.run, List.foldlM_cons, bind_eq_some] at h
    obtain ⟨q1, hq1, h⟩ := h
    rw [Guide.left, if_pos (by simp [Guide.takes, Automaton.goes, hq1]), hq1, Option.getD_some, ih h]

/-- The sentences are what the automaton accepts. -/
theorem mem_language_iff {G : LemonGrammar T N} (hC : D.Certified G pairs) {weight : Symbol T N → ℤ} {bound : ℕ}
    (hL : Lightens G weight bound) :
    w ∈ G.toCFG.language ↔ ∃ q, D.run D.start w = some q ∧ D.accepts q = true := by
  refine ⟨hC.run_of_mem_language, ?_⟩
  rintro ⟨q, hrun, haccepts⟩
  -- A parser whose stack is deep enough keeps all the tokens and accepts them.
  let P := recognizer G (D.maxRank + w.count D.deep)
  have hV : Types P fun _ _ _ => True := fun _ _ _ _ _ _ => trivial
  have hdef : Defined P (fun _ _ _ => True) fun _ => True := fun r _ ps _ _ => by simp [P, recognizer]
  have hmap : w.map P.major = w := List.map_id w
  have hfits : P.Fits D ([] ++ w.map P.major) := by simp [Fits, P, recognizer]
  obtain ⟨s, closed, q', -, -, h⟩ := (guided_init (P := P) hC ()).feed hC hdef hL hV (I := fun _ => True)
    (fun _ h => h) (fun _ _ => trivial) hfits (fun _ _ => trivial) trivial
  rw [hmap, left_eq_self hrun, List.nil_append] at h
  obtain rfl := Option.some_injective _ (hrun.symm.trans h.run)
  obtain ⟨s', hs'⟩ := Option.ne_none_iff_exists'.mp
    (parse_ne_none hdef hL hV h.keeps (fun _ _ => trivial) (a := none))
  rcases h.parse_end hC hV (by simpa [hmap] using hfits) hs' with ⟨-, hw, -⟩ | ⟨hno, -⟩
  · exact hw
  · rw [haccepts] at hno
    cases hno

end Lemon

end Dawn
