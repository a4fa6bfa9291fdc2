import Backtester.Exposure
import Backtester.Tracking

/-!
# The position limit

The guard looks at the position and at the new order only, so it cannot keep the position within its
limit while other orders still work. What it lacks is stated as `Effect.HasRoom`, a condition on
each order when it is accepted. Along a trace that has room, the position stays within the limit
also after all the orders of one side are filled (`Orderly.positionIn_le`), and the account agrees
with the trace (`Engine.Audited`).
-/

open Run StableSort Std History MachineInt

set_option linter.unusedSectionVars false

namespace Backtester

/-- The accepted orders have positive quantities. -/
def Sized (l : List Effect) : Prop := ∀ o, .accepted o ∈ l → 0 < o.qty ∧ o.qty ≤ i64Max

theorem Sized.of_append {l l' : List Effect} (h : Sized (l ++ l')) : Sized l :=
  fun o ho => h o (List.mem_append_left _ ho)

/-- An order is not filled before it is acknowledged. -/
theorem Life.unfilled {n : ℕ} {l : List Effect} {ph : Phase} (h : Life n l ph)
    (hph : ph.ackTime = none) :
    ∀ f ∈ filledIn l, f.orderId ≠ n := by
  induction h with
  | start => exact fun f hf => absurd hf List.not_mem_nil
  | @skip l ph x _ hx ih =>
    intro f hf
    rw [filledIn_append] at hf
    rcases List.mem_append.1 hf with hf | hf
    · exact ih hph f hf
    · obtain rfl := List.mem_singleton.1 (mem_filledIn.1 hf)
      simpa [Effect.concerns] using hx
  | @step l ph ph' x _ hx ih =>
    have hno : x.fill = none ∧ ph.ackTime = none := by
      cases hx <;> first | exact ⟨rfl, rfl⟩ | cases hph
    intro f hf
    rw [filledIn_append, filledIn_eq_nil (l := [x]) (by simpa using hno.1), List.append_nil] at hf
    exact ih hno.2 f hf

namespace Engine

variable {T U Q S L R : Type} [QueueModel Q] {e e' : Engine T U Q S L R} {n : ℕ} {ph : Phase}

/-- An order at an exchange was accepted, and its exchange is that of its symbol. -/
theorem InPhase.accepted_of_stored (h : e.InPhase n ph) {s : ℕ} {o : LiveOrder (QueueModel.State Q)}
    (ho : (e.core.exchange s).orders[n]? = some o) : .accepted o.order ∈ e.trace ∧
    o.order.orderId = n ∧
      ph.symbol = some s ∧ ph.face = some (o.order, o.state) := by
  have hface : e.core.faces n s = some (o.order, o.state) :=
    ExchangeSimulator.face_eq_some.2 ⟨o, ho, rfl, rfl⟩
  rw [h.stage.faces, Phase.faces] at hface
  split_ifs at hface with hs
  have haccepted : ph.accepted = some o.order := by
    cases ph <;> simp_all [Phase.face, Phase.accepted]
  exact ⟨(h.life.accepted_iff.1 haccepted).1, (h.life.accepted_iff.1 haccepted).2, hs, hface⟩

theorem Tracked.housed (h : e.Tracked) : e.core.Housed := by
  intro s s' n o o' ho ho'
  obtain ⟨ph, hin⟩ := h.inPhase n
  obtain ⟨-, -, hs, -⟩ := hin.accepted_of_stored ho
  obtain ⟨-, -, hs', -⟩ := hin.accepted_of_stored ho'
  exact Option.some.inj (hs.symm.trans hs')

theorem Tracked.keyed (h : e.Tracked) (s : ℕ) : (e.core.exchange s).Keyed := by
  intro n o ho
  obtain ⟨ph, hin⟩ := h.inPhase n
  exact (hin.accepted_of_stored ho).2.1

/-- Orders are accepted under ids of their own, and only accepted orders are at the exchanges. -/
structure Known (e : Engine T U Q S L R) : Prop where
  stored : ∀ (s n : ℕ) o, (e.core.exchange s).orders[n]? = some o →
    .accepted o.order ∈ e.trace ∧ o.order.orderId = n
  unique : ∀ o o', .accepted o ∈ e.trace → .accepted o' ∈ e.trace → o.orderId = o'.orderId → o = o'

theorem Tracked.known (h : e.Tracked) : e.Known := by
  refine ⟨fun s n o ho => ?_, fun o o' ho ho' hid => ?_⟩
  · obtain ⟨ph, hin⟩ := h.inPhase n
    exact ⟨(hin.accepted_of_stored ho).1, (hin.accepted_of_stored ho).2.1⟩
  · obtain ⟨ph, hin⟩ := h.inPhase o'.orderId
    exact Option.some.inj ((hin.life.accepted_iff.2 ⟨ho, hid⟩).symm.trans
      (hin.life.accepted_iff.2 ⟨ho', rfl⟩))

/-- The account and the orders agree with the fills on the trace, which have room. -/
structure Audited (e : Engine T U Q S L R) : Prop where
  position : ∀ s, e.core.account.positionQty s = positionIn s e.trace
  vetted : Always (fun pre x => x.Vetted e.core.riskGuard.maxPosition (positionIn · pre)) e.trace
  weighs : e.core.Weighs (filledQty · e.trace)
  filled : ∀ f ∈ filledIn e.trace, 0 < f.qty ∧ ∃ o, .accepted o ∈ e.trace ∧ o.orderId = f.orderId ∧
    o.symbolId = f.symbolId ∧ o.side = f.side ∧ filledQty f.orderId e.trace ≤ o.qty

namespace Audited

/-- What a handler books is absorbed. -/
theorem absorb (h : e.Audited) (hknown : e.Known) (c : Core Q S L R) {core : Core Q S L R}
    {new : List Effect} (hexchange : c.exchange = e.core.exchange)
    (haccount : c.account = e.core.account)
    (hguard : c.riskGuard = e.core.riskGuard) (heffects : c.effects = [])
    (haccounts : Core.Accounts (filledQty · e.trace) c new core)
    (hweighs : core.Weighs fun n => filledQty n e.trace + filledQty n new) :
    (e.absorb core).Audited := by
  obtain ⟨hnew, hlimit, hplaced, hposition, hvetted⟩ := haccounts
  have htrace : (e.absorb core).trace = e.trace ++ new := by
    rw [trace_absorb, hnew, heffects, List.nil_append]
  have hbefore : ∀ s, c.account.positionQty s = positionIn s e.trace := fun s => by
    rw [haccount, h.position]
  have hqty : ∀ n, filledQty n (e.trace ++ new) = filledQty n e.trace + filledQty n new :=
    fun n => filledQty_append n _ _
  have hnewfill : ∀ f ∈ filledIn new, 0 < f.qty ∧ ∃ o, .accepted o ∈ e.trace ∧
    o.orderId = f.orderId ∧
      o.symbolId = f.symbolId ∧ o.side = f.side ∧ filledQty f.orderId (e.trace ++ new) ≤ o.qty := by
    intro f hf
    obtain ⟨hpos, s, o, ho, hsymbol, hside, hle⟩ := hplaced f hf
    rw [hexchange] at ho
    obtain ⟨haccepted, hid⟩ := hknown.stored s f.orderId o ho
    exact ⟨hpos, o.order, haccepted, hid, hsymbol, hside, (hqty _).trans_le hle⟩
  constructor
  · intro s
    rw [core_absorb, htrace, positionIn_append, ← hbefore]
    exact hposition s
  · rw [core_absorb, htrace]
    have hsame : core.cleared.riskGuard.maxPosition = e.core.riskGuard.maxPosition :=
      hlimit.trans (by rw [hguard])
    rw [hsame]
    refine always_append h.vetted fun pre x post hsplit => ?_
    have hx := hvetted pre x post hsplit
    simp only [hbefore, hguard] at hx
    simpa only [positionIn_append] using hx
  · rw [core_absorb, htrace]
    intro s n o ho
    dsimp only
    rw [hqty]
    exact hweighs s n o ho
  · rw [htrace]
    intro f hf
    have hsub : ∀ o, .accepted o ∈ e.trace → .accepted o ∈ e.trace ++ new :=
      fun o => List.mem_append_left _
    rw [filledIn_append] at hf
    rcases List.mem_append.1 hf with hf | hf
    · obtain ⟨hpos, o, haccepted, hid, hsymbol, hside, hle⟩ := h.filled f hf
      refine ⟨hpos, o, hsub o haccepted, hid, hsymbol, hside, ?_⟩
      by_cases hagain : ∃ f' ∈ filledIn new, f'.orderId = f.orderId
      · obtain ⟨f', hf', heq⟩ := hagain
        obtain ⟨-, o', haccepted', hid', -, -, hle'⟩ := hnewfill f' hf'
        obtain rfl :
          o' = o := hknown.unique o' o haccepted' haccepted (hid'.trans (heq.trans hid.symm))
        exact heq ▸ hle'
      · rw [hqty, filledQty_eq_zero fun f' hf' heq => hagain ⟨f', hf', heq⟩, add_zero]
        exact hle
    · obtain ⟨hpos, o, haccepted, hrest⟩ := hnewfill f hf
      exact ⟨hpos, o, hsub o haccepted, hrest⟩

/-- An effect that is no fill and accepts nothing. -/
theorem snoc (h : e.Audited) {x : Effect} (hcore : e'.core = e.core)
    (htrace : e'.trace = e.trace ++ [x])
    (hfill : x.fill = none) (haccept : ∀ o, x ≠ .accepted o) : e'.Audited := by
  have hnone : filledIn [x] = [] := filledIn_eq_nil (by simpa using hfill)
  have hsame : filledIn e'.trace = filledIn e.trace := by
    rw [htrace, filledIn_append, hnone, List.append_nil]
  constructor
  · intro s
    rw [hcore, h.position, positionIn, positionIn, hsame]
  · rw [hcore, htrace]
    refine always_snoc.2 ⟨h.vetted, ?_⟩
    cases x with
    | accepted o => exact absurd rfl (haccept o)
    | _ => trivial
  · have hqty : (fun n => filledQty n e'.trace) = fun n => filledQty n e.trace :=
      funext (Core.filledQty_congr hsame)
    rw [hcore, hqty]
    exact h.weighs
  · rw [hsame]
    intro f hf
    obtain ⟨hpos, o, haccepted, hid, hsymbol, hside, hle⟩ := h.filled f hf
    refine ⟨hpos, o, ?_, hid, hsymbol, hside, ?_⟩
    · rw [htrace]
      exact List.mem_append_left _ haccepted
    · rwa [Core.filledQty_congr hsame]

variable [Strategy S]

theorem flush (h : e.Audited) (hknown : e.Known) : e.flush.1.Audited := by
  have hsteady : Core.Steady e.core.cleared (e.core.cleared.flushStrategy e.core.nowTsSim).1 :=
    (Core.Steady.refl _).flushStrategy _
  obtain ⟨new, haccounts, hweighs⟩ :=
    Core.accounts_of_steady (.refl (filledQty · e.trace) e.core.cleared) h.weighs hsteady
  exact h.absorb hknown e.core.cleared rfl rfl rfl rfl haccounts hweighs

theorem deferredFlush (h : e.Audited) (hknown : e.Known) (wakeup : Bool) :
    (e.deferredFlush wakeup).1.Audited := by
  have hflush := h.flush hknown
  unfold Engine.deferredFlush
  split_ifs
  · split
    · next heq => rwa [heq] at hflush
    · next heq =>
      rw [heq] at hflush
      exact ⟨hflush.position, hflush.vetted, hflush.weighs, hflush.filled⟩
  · exact ⟨h.position, h.vetted, h.weighs, h.filled⟩
  · exact h

variable [LawfulQueueModel Q] [LatencyModel L R]

theorem handleEvent (h : e.Audited) (htracked : e.Tracked) (hsized : Sized e.trace) {event : Event}
    {queue : EventQueue} (pop : e.queue.pop = some (event, queue)) :
    ((e.withQueue queue).handleEvent event).1.Audited := by
  let e₁ := (e.withQueue queue).log (.popped event e.core.activeBatchTimerId)
  have h₁ : e₁.Audited := h.snoc rfl rfl rfl (by simp)
  have hknown₁ : e₁.Known := by
    have hold : ∀ o, .accepted o ∈ e₁.trace → .accepted o ∈ e.trace := fun o ho =>
      (List.mem_append.1 ho).resolve_right (by simp)
    exact ⟨fun s n o ho => ⟨List.mem_append_left _ (htracked.known.stored s n o ho).1,
      (htracked.known.stored s n o ho).2⟩,
      fun o o' ho ho' => htracked.known.unique o o' (hold o ho) (hold o' ho')⟩
  have hsame : ∀ n, filledQty n e₁.trace = filledQty n e.trace := fun n => by
    refine Core.filledQty_congr ?_ n
    exact (filledIn_append _ _).trans (List.append_nil _)
  let c := e.core.cleared.atTime event.tsSim
  have hhandle : ∃ new, Core.Accounts (filledQty · e₁.trace) c new (c.handle event.kind).1 ∧
      (c.handle event.kind).1.Weighs fun n => filledQty n e₁.trace + filledQty n new := by
    have hw : c.Weighs (filledQty · e₁.trace) := h₁.weighs
    have hhoused : c.Housed := htracked.housed
    have hkeyed : ∀ s, (c.exchange s).Keyed := htracked.keyed
    have hrange : ∀ s, InRange 64 (c.account.positionQty s) := fun s => by
      have hposition : c.account.positionQty s = positionIn s e.trace := h.position s
      rw [hposition]
      exact inRange_positionIn s _
    refine Core.accounts_handle hw hhoused hrange hkeyed ?_ ?_
    · intro o hkind
      obtain ⟨ph, hin⟩ := htracked.inPhase o.orderId
      have hpending := htracked.pending_of_pop pop hin (by simp [hkind, EventKind.moves])
      obtain ⟨rfl, -⟩ := Phase.eq_travelling (hkind ▸ hpending)
      refine ⟨hsized o (hin.life.accepted_iff.1 rfl).1, ?_⟩
      rw [hsame]
      exact filledQty_eq_zero (hin.life.unfilled rfl)
    · intro n hkind s o ho
      obtain ⟨ph, hin⟩ := htracked.inPhase n
      have hpending := htracked.pending_of_pop pop hin (by simp [hkind, EventKind.moves])
      obtain ⟨o', dt, rfl, -⟩ := Phase.eq_awaiting (hkind ▸ hpending)
      obtain ⟨-, -, -, hface⟩ := hin.accepted_of_stored ho
      exact (Prod.mk.inj (Option.some.inj hface)).2.symm
  obtain ⟨new, haccounts, hweighs⟩ := hhandle
  exact h₁.absorb hknown₁ c rfl rfl rfl rfl haccounts hweighs

theorem dispatch (h : e.Audited) (htracked : e.Tracked) (hsized : Sized e.trace) {event : Event}
    {queue : EventQueue} (pop : e.queue.pop = some (event, queue)) :
    ((e.withQueue queue).dispatch event).1.Audited := by
  have hhandled := h.handleEvent htracked hsized pop
  have htracked' := htracked.handleEvent pop
  unfold Engine.dispatch
  split
  · next heq => rwa [heq] at hhandled
  · next heq => rwa [heq] at hhandled
  · next heq =>
    rw [heq] at hhandled htracked'
    exact hhandled.deferredFlush htracked'.known _

end Audited

/-! ## Runs -/

variable [TickSource T] [L3Source U] [Strategy S] [LatencyModel L R] [LawfulQueueModel Q]

theorem Audited.ingest {ε : Type} (h : e.Audited) : (e.ingest (ε := ε)).1.Audited := by
  refine ingest_preserves h ?_ ?_ ?_ ?_
  · exact fun e ticks l3 h => ⟨h.position, h.vetted, h.weighs, h.filled⟩
  · exact fun e record h => h.snoc rfl rfl rfl (by simp)
  · exact fun e h => h.snoc rfl rfl rfl (by simp)
  · exact fun e ts kind _ h => h.snoc rfl rfl rfl (by simp)

theorem trace_turn_le (e : Engine T U Q S L R) : e.trace <+: e.turn.1.trace := by
  refine turn_preserves (I := fun e' => e.trace <+: e'.trace) (List.prefix_refl _) ?_ ?_ ?_ ?_ ?_ ?_
  · exact fun _ _ _ h => h
  · exact fun _ _ h => h.trans (List.prefix_append _ _)
  · exact fun _ h => h.trans (List.prefix_append _ _)
  · exact fun _ _ _ _ h => h.trans (List.prefix_append _ _)
  · intro e' event queue h _
    obtain ⟨new, hw, -⟩ := dispatch_spec (e'.withQueue queue) event
    have htrace : ((e'.withQueue queue).dispatch event).1.trace =
        e'.trace ++ (.popped event e'.core.activeBatchTimerId :: new) :=
      hw.trace.trans (List.append_assoc _ [_] _)
    exact h.trans (htrace ▸ List.prefix_append _ _)
  · intro e' h _
    obtain ⟨new, hw, -⟩ := flush_spec e'
    exact h.trans (hw.trace ▸ List.prefix_append _ _)

theorem Audited.turn (h : e.Audited) (htracked : e.Tracked) (hsized : Sized e.turn.1.trace) :
    e.turn.1.Audited := by
  obtain ⟨e₁, pass, heq, hturn⟩ := turn_cases e
  have h₁ : e₁.Audited := by
    have hingest := h.ingest (ε := Strategy.Error S)
    rwa [heq] at hingest
  have htracked₁ : e₁.Tracked := by
    have hingest := htracked.ingest (ε := Strategy.Error S)
    rwa [heq] at hingest
  rcases hturn with ⟨-, hturn, -⟩ | ⟨-, event, queue, hpop, hturn⟩ | ⟨-, -, hturn⟩ |
    ⟨-, -, hturn, -⟩
  · exact hturn ▸ h₁
  · rw [hturn] at hsized ⊢
    obtain ⟨new, hw, -⟩ := dispatch_spec (e₁.withQueue queue) event
    have htrace : ((e₁.withQueue queue).dispatch event).1.trace =
        e₁.trace ++ (.popped event e₁.core.activeBatchTimerId :: new) :=
      hw.trace.trans (List.append_assoc _ [_] _)
    exact h₁.dispatch htracked₁ (htrace ▸ hsized).of_append hpop
  · rw [hturn]
    exact h₁.flush htracked₁.known
  · rw [hturn]
    exact h₁

theorem audited [SeedableRng R] {allowed : ℤ → EventKind → Prop} {e₀ : Engine T U Q S L R}
    {st : Status (EngineError (Strategy.Error S))} (built : Built allowed e₀)
    (h : Reaches turn (External allowed) e₀ e st)
    (outside : ∀ ts kind, allowed ts kind → kind.isOrderEvent = false) (hsized : Sized e.trace) :
    e.Audited := by
  have hall : e.Tracked ∧ (Sized e.trace → e.Audited) := by
    refine open_invariant (I := fun e => e.Tracked ∧ (Sized e.trace → e.Audited)) built h ?_ ?_ ?_
    · refine fun _ _ _ _ _ => ⟨tracked_new _ _ _ _ _,
        fun _ => ⟨fun s => ?_, always_nil, fun s n o ho => ?_, ?_⟩⟩
      · simp [Engine.new, Account.positionQty, positionIn, filledIn]
      · exact absurd ((tracked_new _ _ _ _ _).known.stored s n o ho).1 List.not_mem_nil
      · simp [Engine.new, filledIn]
    · rintro e e' ⟨htracked, haudited⟩ hext
      refine ⟨htracked.external outside hext, fun hsized => ?_⟩
      cases hext with
      | addTickSource source =>
        have h := haudited hsized
        exact ⟨h.position, h.vetted, h.weighs, h.filled⟩
      | addL3Source source =>
        have h := haudited hsized
        have horders : ∀ s, ((e.addL3Source source).core.exchange s).orders =
            (e.core.exchange s).orders :=
          Core.orders_of_exchanges rfl
        exact ⟨h.position, h.vetted, fun s n o ho => h.weighs s n o (horders s ▸ ho), h.filled⟩
      | pushEvent hallowed => exact (haudited hsized.of_append).snoc rfl rfl rfl (by simp)
    · rintro e ⟨htracked, haudited⟩
      refine ⟨htracked.turn, fun hsized => ?_⟩
      obtain ⟨new, htrace⟩ := e.trace_turn_le
      exact (haudited (htrace ▸ hsized).of_append).turn htracked hsized
  exact hall.2 hsized

end Engine

/-! ## What the orders have left -/

/-- The last report of order `n` is sent : it is not filled any more. -/
def Effect.ends (n : ℕ) : Effect → Bool
  | scheduled _ (.orderReport r) => r.orderId = n && r.status.isTerminal
  | _ => false

/-- The orders that the risk guard let pass, in order. -/
def acceptedIn (l : List Effect) : List Order :=
  l.filterMap fun
    | .accepted o => some o
    | _ => none

/-- What an accepted order has left to fill. -/
def leftQty (l : List Effect) (o : Order) : ℤ :=
  if l.any (Effect.ends o.orderId) then 0 else o.qty - filledQty o.orderId l

/-- What the accepted orders of a symbol and a side have left to fill. -/
def workingQty (symbolId : ℕ) (side : Side) (l : List Effect) : ℤ :=
  (((acceptedIn l).filter fun o => o.symbolId = symbolId ∧ o.side = side).map (leftQty l)).sum

/-- An accepted order is the only one of its symbol and its side that has anything left, or the
position stays within the limit when all of them are filled. -/
def Effect.HasRoom (limit : ℤ) (pre : List Effect) (x : Effect) : Prop :=
  ∀ o, x = .accepted o → workingQty o.symbolId o.side pre = 0 ∨
    |positionIn o.symbolId pre + o.side.signed (workingQty o.symbolId o.side pre + o.qty)| ≤ limit

theorem mem_acceptedIn {l : List Effect} {o : Order} : o ∈ acceptedIn l ↔ .accepted o ∈ l := by
  constructor
  · intro h
    obtain ⟨x, hx, heq⟩ := List.mem_filterMap.1 h
    cases x with
    | accepted o' =>
      obtain rfl := Option.some.inj heq
      exact hx
    | _ => cases heq
  · exact fun h => List.mem_filterMap.2 ⟨_, h, rfl⟩

instance (limit : ℤ) (pre : List Effect) (x : Effect) : Decidable (x.HasRoom limit pre) :=
  decidable_of_iff (∀ o ∈ acceptedIn [x], workingQty o.symbolId o.side pre = 0 ∨
      |positionIn o.symbolId pre + o.side.signed (workingQty o.symbolId o.side pre + o.qty)| ≤
        limit) <| by
    simp only [mem_acceptedIn, List.mem_singleton, eq_comm, Effect.HasRoom]

instance (l : List Effect) : Decidable (Sized l) :=
  decidable_of_iff (∀ o ∈ acceptedIn l, 0 < o.qty ∧ o.qty ≤ i64Max) <| by
    simp only [mem_acceptedIn, Sized]

theorem acceptedIn_snoc {l : List Effect} {x : Effect} (hx : ∀ o, x ≠ .accepted o) :
    acceptedIn (l ++ [x]) = acceptedIn l := by
  rw [acceptedIn, List.filterMap_append]
  cases x with
  | accepted o => exact absurd rfl (hx o)
  | _ => exact List.append_nil _

/-- Terms that decrease, one of them by `q`. -/
theorem sum_map_le_sub {α : Type} {l : List α} {f g : α → ℤ} {a : α} {q : ℤ} (ha : a ∈ l)
    (hle : ∀ b ∈ l, f b ≤ g b) (hlt : f a ≤ g a - q) : (l.map f).sum ≤ (l.map g).sum - q := by
  obtain ⟨l₁, l₂, rfl⟩ := List.append_of_mem ha
  have h₁ : (l₁.map f).sum ≤ (l₁.map g).sum := List.sum_le_sum fun b hb => hle b (by simp [hb])
  have h₂ : (l₂.map f).sum ≤ (l₂.map g).sum := List.sum_le_sum fun b hb => hle b (by simp [hb])
  simp only [List.map_append, List.map_cons, List.sum_append, List.sum_cons]
  omega

namespace Life

variable {n : ℕ} {l : List Effect} {ph : Phase}

/-- The phases in which an order may still be filled, or is not yet on its way. -/
def isLive : Phase → Bool
  | .refused _ _ _ | .dismissed _ | .closing _ _ _ _ _ | .closed _ _ => false
  | _ => true

/-- A live order has no last report. -/
theorem not_ends (h : Life n l ph) (hph : isLive ph = true) : l.any (Effect.ends n) = false := by
  induction h with
  | start => rfl
  | @skip l ph x _ hx ih =>
    have hends : Effect.ends n x = false := by
      cases x with
      | scheduled ts kind =>
        cases kind with
        | orderReport r =>
          have hr : r.orderId ≠ n := by simpa [Effect.concerns, EventKind.isAbout] using hx
          simp [Effect.ends, hr]
        | _ => rfl
      | _ => rfl
    simp [ih hph, hends]
  | @step l ph ph' x _ hx ih =>
    have hlive : Effect.ends n x = false ∧ isLive ph = true := by
      cases hx <;> first
        | exact ⟨rfl, rfl⟩
        | (cases hph; done)
        | simp_all [Effect.ends, OrderState.isTerminal, isLive]
    simp [ih hlive.2, hlive.1]

end Life

theorem satAddI64_bounds {p q : ℤ} (hp : InRange 64 p) (hq : 0 ≤ q) :
    p ≤ satAddI64 p q ∧ satAddI64 p q ≤ p + q ∧ p - q ≤ satAddI64 p (-q) ∧
    satAddI64 p (-q) ≤ p := by
  unfold satAddI64 clamp
  unfold InRange at hp
  norm_num at hp ⊢
  omega

/-- The trace of a run : every order lives its life, and the fills have room. -/
structure Orderly (l : List Effect) : Prop where
  lives : ∀ n, ∃ ph, Life n l ph
  sized : Sized l
  filled : ∀ f ∈ filledIn l, 0 < f.qty ∧ ∃ o, .accepted o ∈ l ∧ o.orderId = f.orderId ∧
    o.symbolId = f.symbolId ∧ o.side = f.side ∧ filledQty f.orderId l ≤ o.qty

namespace Orderly

variable {l pre post : List Effect} {x : Effect} {o : Order} {f : TradeFill}

theorem unique (h : Orderly l) {o' : Order} (ho : .accepted o ∈ l) (ho' : .accepted o' ∈ l)
    (hid : o.orderId = o'.orderId) : o = o' := by
  obtain ⟨ph, hlife⟩ := h.lives o'.orderId
  exact Option.some.inj ((hlife.accepted_iff.2 ⟨ho, hid⟩).symm.trans
    (hlife.accepted_iff.2 ⟨ho', rfl⟩))

theorem filledQty_le (h : Orderly l) (ho : .accepted o ∈ l) : filledQty o.orderId l ≤ o.qty := by
  by_cases hfill : ∃ f ∈ filledIn l, f.orderId = o.orderId
  · obtain ⟨f, hf, hid⟩ := hfill
    obtain ⟨-, o', ho', hid', -, -, hle⟩ := h.filled f hf
    obtain rfl := h.unique ho' ho (hid'.trans hid)
    exact hid ▸ hle
  · rw [filledQty_eq_zero fun f hf hid => hfill ⟨f, hf, hid⟩]
    exact (h.sized o ho).1.le

/-- A fill is of `i64`. -/
theorem fill_le (h : Orderly (pre ++ .filled f :: post)) : 0 < f.qty ∧ f.qty ≤ i64Max := by
  have hmem : f ∈ filledIn (pre ++ .filled f :: post) :=
    mem_filledIn.2 (List.mem_append_right _ List.mem_cons_self)
  obtain ⟨hpos, o, ho, -, -, -, hle⟩ := h.filled f hmem
  have hparts : ∀ part : List Effect, part ⊆ pre ++ .filled f :: post →
      0 ≤ filledQty f.orderId part :=
    fun part hsub => filledQty_nonneg fun f' hf' =>
      (h.filled f' (mem_filledIn.2 (hsub (mem_filledIn.1 hf')))).1
  have hpre := hparts pre (List.subset_append_left _ _)
  have hpost := hparts post fun x hx => List.mem_append_right _ (List.mem_cons_of_mem _ hx)
  have hsplit := filledQty_append f.orderId [.filled f] post
  rw [filledQty_singleton, if_pos rfl, List.singleton_append] at hsplit
  rw [filledQty_append, hsplit] at hle
  have hmax := (h.sized o ho).2
  exact ⟨hpos, by omega⟩

theorem filledQty_mono (h : Orderly (pre ++ post)) (n : ℕ) :
    filledQty n pre ≤ filledQty n (pre ++ post) := by
  rw [filledQty_append]
  refine le_add_of_nonneg_right (filledQty_nonneg fun f hf => (h.filled f ?_).1)
  rw [filledIn_append]
  exact List.mem_append_right _ hf

theorem leftQty_nonneg (h : Orderly (pre ++ post)) (ho : o ∈ acceptedIn pre) :
    0 ≤ leftQty pre o := by
  have hmem : .accepted o ∈ pre ++ post := List.mem_append_left _ (mem_acceptedIn.1 ho)
  unfold leftQty
  split_ifs
  · exact le_rfl
  · exact sub_nonneg.2 ((h.filledQty_mono _).trans (h.filledQty_le hmem))

theorem workingQty_nonneg (h : Orderly (pre ++ post)) (s : ℕ) (side : Side) :
    0 ≤ workingQty s side pre := by
  refine List.sum_nonneg fun q hq => ?_
  obtain ⟨o, ho, rfl⟩ := List.mem_map.1 hq
  exact h.leftQty_nonneg (List.mem_of_mem_filter ho)

theorem leftQty_snoc_le (h : Orderly (pre ++ x :: post)) (ho : o ∈ acceptedIn pre) :
    leftQty (pre ++ [x]) o ≤ leftQty pre o := by
  have hnonneg := h.leftQty_nonneg ho
  have hmore : filledQty o.orderId pre ≤ filledQty o.orderId (pre ++ [x]) := by
    rw [filledQty_append]
    refine le_add_of_nonneg_right (filledQty_nonneg fun f hf => (h.filled f ?_).1)
    rw [List.append_cons, filledIn_append, filledIn_append]
    exact List.mem_append_left _ (List.mem_append_right _ hf)
  unfold leftQty at hnonneg ⊢
  rw [List.any_append]
  cases hends : pre.any (Effect.ends o.orderId) with
  | true => simp
  | false =>
    rw [hends, if_neg Bool.false_ne_true] at hnonneg
    rw [Bool.false_or, if_neg Bool.false_ne_true]
    split_ifs
    · exact hnonneg
    · exact sub_le_sub_left hmore _

/-- What works decreases with everything but an acceptance. -/
theorem workingQty_snoc_le (h : Orderly (pre ++ x :: post)) (hx : ∀ o, x ≠ .accepted o) (s : ℕ)
    (side : Side) : workingQty s side (pre ++ [x]) ≤ workingQty s side pre := by
  rw [workingQty, acceptedIn_snoc hx]
  exact List.sum_le_sum fun o ho => h.leftQty_snoc_le (List.mem_of_mem_filter ho)

/-- A fill takes its quantity from what works. -/
theorem workingQty_filled (h : Orderly (pre ++ .filled f :: post)) :
    workingQty f.symbolId f.side (pre ++ [.filled f]) ≤
      workingQty f.symbolId f.side pre - f.qty := by
  have hmem : f ∈ filledIn (pre ++ .filled f :: post) :=
    mem_filledIn.2 (List.mem_append_right _ List.mem_cons_self)
  obtain ⟨hpos, o, ho, hid, hsymbol, hside, -⟩ := h.filled f hmem
  obtain ⟨ph, hlife⟩ := h.lives f.orderId
  obtain ⟨ph₁, hlife₁, hmove⟩ := hlife.split
  obtain ⟨ph₂, hadvance⟩ := hmove (by simp [Effect.concerns])
  have hphase : Life.isLive ph₁ = true ∧ ∃ o', ph₁.accepted = some o' := by
    cases hadvance with
    | fill => exact ⟨rfl, _, rfl⟩
    | marketFill => exact ⟨rfl, _, rfl⟩
  obtain ⟨hlive, o', ho'⟩ := hphase
  obtain ⟨hmem', hid'⟩ := hlife₁.accepted_iff.1 ho'
  obtain rfl : o' = o := h.unique (List.mem_append_left _ hmem') ho (hid'.trans hid.symm)
  have hends : pre.any (Effect.ends o'.orderId) = false := hid ▸ hlife₁.not_ends hlive
  have hleft : leftQty (pre ++ [.filled f]) o' = leftQty pre o' - f.qty := by
    rw [leftQty, leftQty, List.any_append, hends, filledQty_append, filledQty_singleton,
      if_pos hid.symm]
    simp only [List.any_cons, List.any_nil, Effect.ends, Bool.or_false, Bool.false_eq_true,
      ↓reduceIte]
    ring
  rw [workingQty, acceptedIn_snoc (by simp)]
  refine sum_map_le_sub (q := f.qty) ?_ (fun o ho => h.leftQty_snoc_le (List.mem_of_mem_filter ho))
    hleft.le
  exact List.mem_filter.2 ⟨mem_acceptedIn.2 hmem', by simp [hsymbol, hside]⟩

/-- An accepted order adds its quantity to what works. -/
theorem workingQty_accepted (h : Orderly (pre ++ .accepted o :: post)) (s : ℕ) (side : Side) :
    workingQty s side (pre ++ [.accepted o]) =
      workingQty s side pre + if o.symbolId = s ∧ o.side = side then o.qty else 0 := by
  obtain ⟨ph, hlife⟩ := h.lives o.orderId
  obtain ⟨ph₁, hlife₁, hmove⟩ := hlife.split
  obtain ⟨ph₂, hadvance⟩ := hmove (by simp [Effect.concerns])
  obtain rfl : ph₁ = .unborn := by cases hadvance; rfl
  have hsame : ∀ o', leftQty (pre ++ [.accepted o]) o' = leftQty pre o' := fun o' => by
    have hnone : filledIn [.accepted o] = [] := rfl
    have hfilled : filledIn (pre ++ [.accepted o]) = filledIn pre := by
      rw [filledIn_append, hnone, List.append_nil]
    have hends : (pre ++ [Effect.accepted o]).any (Effect.ends o'.orderId) =
        pre.any (Effect.ends o'.orderId) := by
      rw [List.any_append]
      exact Bool.or_false _
    rw [leftQty, leftQty, hends, Core.filledQty_congr hfilled]
  have hnew : leftQty pre o = o.qty := by
    rw [leftQty, hlife₁.not_ends rfl, if_neg Bool.false_ne_true,
      filledQty_eq_zero (hlife₁.unfilled rfl), sub_zero]
  have haccepted : acceptedIn (pre ++ [.accepted o]) = acceptedIn pre ++ [o] :=
    List.filterMap_append
  rw [workingQty, haccepted, List.filter_append, List.map_append, List.sum_append,
    List.map_congr_left fun o' _ => hsame o', workingQty]
  congr 1
  by_cases hworks : o.symbolId = s ∧ o.side = side
  · simp [hworks, hsame, hnew]
  · rw [if_neg hworks]
    simp [hworks]

/-- The position after all orders of one side that still work stays within the limit, and so on at
every prefix. -/
theorem positionIn_le {limit : ℤ} (hlimit : 0 < limit) (s : ℕ) (h : Orderly (pre ++ post))
    (hvetted : Always (fun pre x => x.Vetted limit (positionIn · pre)) (pre ++ post))
    (hroom : Always (Effect.HasRoom limit) (pre ++ post)) :
    positionIn s pre + workingQty s .buy pre ≤ limit ∧
    -limit ≤ positionIn s pre - workingQty s .sell pre := by
  induction pre using List.reverseRecOn generalizing post with
  | nil =>
    have hzero : ∀ side, workingQty s side [] = 0 := fun _ => rfl
    have hnone : positionIn s [] = 0 := rfl
    rw [hzero, hzero, hnone]
    omega
  | append_singleton pre x ih =>
    rw [List.append_assoc, List.singleton_append] at h hvetted hroom
    obtain ⟨hbuy, hsell⟩ := ih h hvetted hroom
    have hposition : positionIn s (pre ++ [x]) =
        (filledIn [x]).foldl (positionAfter s) (positionIn s pre) :=
      positionIn_append s pre [x]
    by_cases haccepted : ∃ o, x = .accepted o
    · obtain ⟨o, rfl⟩ := haccepted
      have hsame : positionIn s (pre ++ [.accepted o]) = positionIn s pre := hposition
      rw [hsame, h.workingQty_accepted, h.workingQty_accepted]
      have hvet : |positionIn o.symbolId pre + o.side.signed o.qty| ≤ limit :=
        hvetted pre _ post rfl hlimit
      have hroom' := hroom pre _ post rfl o rfl
      by_cases hsymbol : o.symbolId = s
      · subst hsymbol
        cases hside : o.side with
        | buy =>
          rw [hside] at hvet hroom'
          simp only [Side.signed, abs_le] at hvet hroom'
          simp only [true_and, reduceCtorEq, ↓reduceIte, and_false]
          omega
        | sell =>
          rw [hside] at hvet hroom'
          simp only [Side.signed, abs_le] at hvet hroom'
          simp only [true_and, reduceCtorEq, ↓reduceIte, and_false]
          omega
        | none =>
          simp only [reduceCtorEq, ↓reduceIte, and_false]
          omega
      · simp only [hsymbol, false_and, ↓reduceIte]
        omega
    · have hx : ∀ o, x ≠ .accepted o := fun o heq => haccepted ⟨o, heq⟩
      have hbuy' := h.workingQty_snoc_le hx s .buy
      have hsell' := h.workingQty_snoc_le hx s .sell
      cases hfill : x.fill with
      | none =>
        have hnone : filledIn [x] = [] := filledIn_eq_nil (by simpa using hfill)
        rw [hposition, hnone, List.foldl_nil]
        omega
      | some f =>
        obtain rfl : x = .filled f := by
          cases x with
          | filled f' => rw [Option.some.inj hfill]
          | _ => cases hfill
        have hafter : positionIn s (pre ++ [.filled f]) = positionAfter s (positionIn s pre) f :=
          hposition
        obtain ⟨hpos, hmax⟩ := h.fill_le
        have hmax' : f.qty ≤ 2 ^ 63 - 1 := hmax
        have hworks := h.workingQty_filled
        have hbounds := satAddI64_bounds (inRange_positionIn s pre) hpos.le
        rw [hafter, positionAfter]
        by_cases hsymbol : f.symbolId = s
        · rw [if_pos hsymbol]
          subst hsymbol
          have hwrap : wrap 64 (f.side.signed f.qty) = f.side.signed f.qty := by
            refine wrap_eq_self (by norm_num) ?_
            unfold InRange
            cases f.side <;> simp only [Side.signed] <;> norm_num <;> omega
          rw [hwrap]
          cases hside : f.side with
          | buy =>
            rw [hside] at hworks
            simp only [Side.signed]
            omega
          | sell =>
            rw [hside] at hworks
            simp only [Side.signed]
            omega
          | none =>
            have hsame := (satAddI64_bounds (inRange_positionIn f.symbolId pre) le_rfl)
            simp only [Side.signed]
            omega
        · rw [if_neg hsymbol]
          omega

end Orderly

namespace Engine

section

variable {T U Q S L R : Type} [QueueModel Q] [LawfulQueueModel Q] [TickSource T] [L3Source U]
  [Strategy S] [LatencyModel L R] [SeedableRng R] {e e₀ : Engine T U Q S L R}
  {st : Status (EngineError (Strategy.Error S))} {allowed : ℤ → EventKind → Prop}

/-- When every order that the guard lets pass also has room beside the orders that still work, the
limit holds in every state of the run. -/
theorem position_limited (built : Built allowed e₀) (h : Reaches turn (External allowed) e₀ e st)
    (outside : ∀ ts kind, allowed ts kind → kind.isOrderEvent = false) (hsized : Sized e.trace)
    (hlimit : 0 < e.core.config.maxPosition)
    (hroom : Always (Effect.HasRoom e.core.config.maxPosition) e.trace) (symbolId : ℕ) :
    |e.core.account.positionQty symbolId| ≤ e.core.config.maxPosition := by
  have haudited := audited built h outside hsized
  have hguard : e.core.riskGuard.maxPosition = e.core.config.maxPosition := (limited built h).2.1
  have horderly : Orderly (e.trace ++ []) := by
    rw [List.append_nil]
    refine ⟨fun n => ?_, hsized, haudited.filled⟩
    obtain ⟨ph, hin⟩ := (tracked built h outside).inPhase n
    exact ⟨ph, hin.life⟩
  obtain ⟨hbuy, hsell⟩ := horderly.positionIn_le hlimit symbolId
    (by rw [List.append_nil, ← hguard]; exact haudited.vetted) (by rwa [List.append_nil])
  have hworks := horderly.workingQty_nonneg symbolId
  rw [haudited.position, abs_le]
  constructor
  · linarith [hworks .sell]
  · linarith [hworks .buy]

end

/-- The limit is `2`, and both orders of quantity `1` have room. -/
theorem position_limited_sample :
    let order : Order := ⟨0, 0, 0, 0, 100, 1, 1, .buy, .limit⟩
    let ticks : List Tick := [⟨1000, 0, 0, 100, 1, 1, .buy, 0⟩, ⟨2000, 0, 1, 100, 5, 1, .sell, 0⟩]
    let e := (runFor turn 30 (sample { maxPosition := 2 } 10
      [[.submitOrder order, .submitOrder order]] [ticks])).1
    (acceptedIn e.trace).map Order.orderId = [1, 2] ∧ e.core.account.positionQty 1 = 2 ∧
      |e.core.account.positionQty 1| ≤ e.core.config.maxPosition := by
  intro order ticks e
  let e₀ : Sample := sample { maxPosition := 2 } 10 [[.submitOrder order, .submitOrder order]]
    [ticks]
  have built : Built (fun _ kind => kind.isOrderEvent = false) e₀ :=
    .external (.new _ _ _ _ _) (.addTickSource ticks)
  have run : Reaches turn (External fun _ kind => kind.isOrderEvent = false) e₀ e
      (runFor turn 30 e₀).2 := reaches_runFor e₀ 30
  have hsized : Sized e.trace := by decide +kernel
  have hlimit : 0 < e.core.config.maxPosition := by decide +kernel
  have hroom : Always (Effect.HasRoom e.core.config.maxPosition) e.trace := by decide +kernel
  exact ⟨by decide +kernel, by decide +kernel,
    position_limited built run (fun _ _ h => h) hsized hlimit hroom 1⟩

/-- The limit is `1`. Both orders of quantity `1` pass the guard while the position is `0`, and both
are filled. -/
theorem position_limit_exceeded :
    let order : Order := ⟨0, 0, 0, 0, 100, 1, 1, .buy, .limit⟩
    let ticks : List Tick := [⟨1000, 0, 0, 100, 1, 1, .buy, 0⟩, ⟨2000, 0, 1, 100, 5, 1, .sell, 0⟩]
    let e₀ := sample { maxPosition := 1 } 10 [[.submitOrder order, .submitOrder order]] [ticks]
    let e := (runFor turn 30 e₀).1
    Built (fun _ kind => kind.isOrderEvent = false) e₀ ∧
      Reaches turn (External fun _ kind => kind.isOrderEvent = false) e₀ e .finished ∧
        Sized e.trace ∧
      e.core.config.maxPosition = 1 ∧ e.core.account.positionQty 1 = 2 ∧
      ¬Always (Effect.HasRoom e.core.config.maxPosition) e.trace := by
  intro order ticks e₀ e
  have built : Built (fun _ kind => kind.isOrderEvent = false) e₀ :=
    .external (.new _ _ _ _ _) (.addTickSource ticks)
  exact ⟨built, reaches_of_runFor 30 (by decide +kernel), by decide +kernel, by decide +kernel,
    by decide +kernel, by decide +kernel⟩

end Engine

end Backtester
