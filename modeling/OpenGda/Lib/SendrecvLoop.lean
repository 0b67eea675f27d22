import OpenGda.Lib.Meetings
import OpenGda.Lib.Sendrecv

set_option autoImplicit false

-- Programs that loop over their peers, with one exchange for each.
namespace Sendrecv

open Machine

variable {Party Payload Ctx Result : Type}

def Prog.each (body : Ctx → Party → Prog Party Payload Ctx) : Ctx → List Party → Prog Party Payload Ctx
  | ctx, [] => .done ctx
  | ctx, peer :: rest => (body ctx peer).bind fun ctx => Prog.each body ctx rest

theorem each_skip (skip : Party → Prop) [DecidablePred skip] (body : Ctx → Party → Prog Party Payload Ctx) (ctx : Ctx)
    (peers : List Party) :
    Prog.each (fun ctx peer => if skip peer then .done ctx else body ctx peer) ctx peers =
      Prog.each body ctx (peers.filter fun peer => ¬ skip peer) := by
  induction peers generalizing ctx with
  | nil => rfl
  | cons peer rest ih =>
      by_cases here : skip peer
      · simpa [Prog.each, here, Prog.bind] using ih ctx
      · simp [Prog.each, here, ih]

theorem foldl_pointwise {Value : Type} [DecidableEq Party] (get : Ctx → Party → Value) (body : Ctx → Party → Ctx)
    (update : Party → Value → Value)
    (changes : ∀ ctx peer other, get (body ctx peer) other = if other = peer then update peer (get ctx peer) else get ctx other)
    (peers : List Party) (once : peers.Nodup) (ctx : Ctx) (peer : Party) :
    get (peers.foldl body ctx) peer = if peer ∈ peers then update peer (get ctx peer) else get ctx peer := by
  induction peers generalizing ctx with
  | nil => simp
  | cons first rest ih =>
      obtain ⟨unseen, once⟩ := List.nodup_cons.mp once
      rw [List.foldl_cons, ih once, changes]
      by_cases own : peer = first
      · subst own
        simp [unseen]
      · simp [own]

theorem foldl_keeps {View : Type} (view : Ctx → View) (body : Ctx → Party → Ctx)
    (keeps : ∀ ctx peer, view (body ctx peer) = view ctx) (peers : List Party) (ctx : Ctx) :
    view (peers.foldl body ctx) = view ctx := by
  induction peers generalizing ctx with
  | nil => rfl
  | cons first rest ih => exact (ih (body ctx first)).trans (keeps ctx first)

structure Exchanging (body : Ctx → Party → Prog Party Payload Ctx) (offer : Party → Payload)
    (put : Ctx → Party → Payload → Ctx) (ready : Ctx → List Party → Prop) : Prop where
  asks : ∀ ctx peer rest, ready ctx (peer :: rest) →
    body ctx peer = .sendrecv (offer peer) peer fun reply => .done (put ctx peer reply)
  keeps : ∀ ctx peer rest reply, ready ctx (peer :: rest) → ready (put ctx peer reply) rest

theorem each_follows (body : Ctx → Party → Prog Party Payload Ctx) (offer : Party → Payload)
    (put : Ctx → Party → Payload → Ctx) (ready : Ctx → List Party → Prop)
    (exchanging : Exchanging body offer put ready) (after : Ctx → Result) (peers : List Party) (ctx : Ctx)
    (prepared : ready ctx peers) :
    Follows offer ((Prog.each body ctx peers).bind fun ctx => .done (after ctx)) peers := by
  induction peers generalizing ctx with
  | nil => trivial
  | cons peer rest ih =>
      rw [Prog.each, exchanging.asks ctx peer rest prepared]
      exact ⟨rfl, rfl, fun reply => ih _ (exchanging.keeps ctx peer rest reply prepared)⟩

theorem each_fed (body : Ctx → Party → Prog Party Payload Ctx) (offer : Party → Payload)
    (put : Ctx → Party → Payload → Ctx) (ready : Ctx → List Party → Prop)
    (exchanging : Exchanging body offer put ready) (after : Ctx → Result) (replies : Party → Payload)
    (peers : List Party) (ctx : Ctx) (prepared : ready ctx peers) :
    ((Prog.each body ctx peers).bind fun ctx => .done (after ctx)).fed (peers.map fun peer => some (replies peer)) =
      .done (after (peers.foldl (fun ctx peer => put ctx peer (replies peer)) ctx)) := by
  induction peers generalizing ctx with
  | nil => rfl
  | cons peer rest ih =>
      rw [Prog.each, exchanging.asks ctx peer rest prepared]
      exact ih _ (exchanging.keeps ctx peer rest (replies peer) prepared)

variable [DecidableEq Party] [Fintype Party]

theorem each_free_iff (body : Party → Ctx → Party → Prog Party Payload Ctx) (offer : Party → Party → Payload)
    (put : Party → Ctx → Party → Payload → Ctx) (ready : Party → Ctx → List Party → Prop)
    (exchanging : ∀ party, Exchanging (body party) (offer party) (put party) (ready party)) (after : Party → Ctx → Result)
    (peers : Party → List Party) (paired : Channels.Paired peers) (ctx : Party → Ctx)
    (prepared : ∀ party, ready party (ctx party) (peers party)) :
    (∀ state, Reach step always (start fun party =>
      (Prog.each (body party) (ctx party) (peers party)).bind fun ctx => .done (after party ctx)) state → ¬ Deadlocked state) ↔
        Channels.Acyclic peers := by
  rw [← Channels.consistent_iff_acyclic peers paired]
  exact free_iff _ peers offer
    (fun party => each_follows _ _ _ _ (exchanging party) (after party) (peers party) (ctx party) (prepared party)) paired

theorem each_completes_iff (body : Party → Ctx → Party → Prog Party Payload Ctx) (offer : Party → Party → Payload)
    (put : Party → Ctx → Party → Payload → Ctx) (ready : Party → Ctx → List Party → Prop)
    (exchanging : ∀ party, Exchanging (body party) (offer party) (put party) (ready party)) (after : Party → Ctx → Result)
    (peers : Party → List Party) (paired : Channels.Paired peers) (ctx : Party → Ctx)
    (prepared : ∀ party, ready party (ctx party) (peers party)) :
    Completes (start fun party =>
      (Prog.each (body party) (ctx party) (peers party)).bind fun ctx => .done (after party ctx)) (fun party =>
        after party ((peers party).foldl (fun ctx peer => put party ctx peer (offer peer party)) (ctx party))) ↔
          Channels.Acyclic peers := by
  rw [← Channels.consistent_iff_acyclic peers paired]
  exact completes_iff _ peers offer
    (fun party => each_follows _ _ _ _ (exchanging party) (after party) (peers party) (ctx party) (prepared party)) paired _
    fun party => each_fed _ _ _ _ (exchanging party) (after party) (fun peer => offer peer party) (peers party) (ctx party)
      (prepared party)

end Sendrecv
