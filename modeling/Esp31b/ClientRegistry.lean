import Esp31b.NetContexts
import Esp31b.SList

/-!
# The registry of the clients

Every `WiFiClient` is in the list that starts at `SList<WiFiClient>::_s_first`,
from its constructor to its destructor. The three constructors enter it, the
copy constructor with a link of its own; `operator=` copies the context and
leaves the link; and `stopAll` and `stopAllExcept` go along the links.

In `WiFiClients` the objects are a list that is kept by definition. Here the
same events are carried out over the pointers, and the two agree
(`exec_follows`): the links lead over exactly the objects there are, whatever
was constructed, copied, assigned and destroyed before (`registry_exact`).
-/

namespace WiFiClients

/-- The objects that are there after an event. -/
def live (objects : List ℕ) : WiFiClientEvent → List ℕ
  | .construct i | .available i _ | .copy i _ => i :: objects
  | .destroy i => objects.erase i
  | .accept | .assign _ _ | .connect _ _ | .connected _ | .use _ | .stop _ | .stopAll
  | .stopAllExcept _ => objects

variable {s t : WiFiClients} {e : WiFiClientEvent}

theorem objects_foldl {ι : Type} (f : RefPool ι → ι → RefPool ι)
    (hf : ∀ s i, (f s i).objects = s.objects) (l : List ι) (s : RefPool ι) :
    (l.foldl f s).objects = s.objects := by
  induction l generalizing s with
  | nil => rfl
  | cons i l ih => exact (ih (f s i)).trans (hf s i)

/-- **Constructors and destructors alone** change which objects there are. -/
theorem objects_step (hstep : s.step e = some t) : t.pool.objects = live s.pool.objects e := by
  cases e with
  | construct i =>
    obtain ⟨-, rfl⟩ := Machine.of_guard_not hstep
    rfl
  | accept =>
    obtain rfl := Option.some.inj hstep
    exact objects_foldl RefPool.call (fun s k => (s.call_frame k).1) s.pool.idle s.pool
  | available i k =>
    obtain ⟨-, rfl⟩ := Machine.of_guard hstep
    exact (WiFiClient.available_frame s.pool i k).1
  | copy i j =>
    obtain ⟨-, rfl⟩ := Machine.of_guard hstep
    exact congrArg (i :: ·) ((s.pool.point i (s.pool.ptr j)).refPtr_frame _).1
  | assign i j =>
    obtain ⟨-, rfl⟩ := Machine.of_guard hstep
    exact (RefPool.refPtr_frame _ _).1.trans (s.pool.unrefPtr_frame _).1
  | connect i started =>
    obtain ⟨-, rfl⟩ := Machine.of_guard hstep
    exact (s.pool.release_frame i).1
  | connected i =>
    obtain ⟨-, rfl⟩ := Machine.of_guard hstep
    exact (s.pool.attach_frame i).1
  | use i =>
    obtain ⟨-, rfl⟩ := Machine.of_guard hstep
    show (s.pool.callPtr (s.pool.ptr i)).objects = s.pool.objects
    cases s.pool.ptr i with
    | none => rfl
    | some k => exact (s.pool.call_frame k).1
  | stop i =>
    obtain ⟨-, rfl⟩ := Machine.of_guard hstep
    exact (s.pool.release_frame i).1
  | stopAll =>
    obtain rfl := Option.some.inj hstep
    exact objects_foldl _ (fun s i => (s.dismiss_frame i).1) s.pool.objects s.pool
  | stopAllExcept ex =>
    obtain ⟨-, rfl⟩ := Machine.of_guard hstep
    refine objects_foldl _ (fun t i => ?_) s.pool.objects s.pool
    split
    · rfl
    · exact (t.dismiss_frame i).1
  | destroy i =>
    obtain ⟨-, rfl⟩ := Machine.of_guard hstep
    exact ((s.pool.remove i).unrefPtr_frame _).1

end WiFiClients

/-- **The clients and the list they are linked in.** -/
structure ClientRegistry where
  clients : WiFiClients
  list : SList

namespace ClientRegistry

/-- No object. -/
def init : ClientRegistry := ⟨WiFiClients.init, SList.init⟩

/-- An event with a constructor: `SList()`, and `_add` at its end. -/
def enter (s : ClientRegistry) (e : WiFiClientEvent) (i : ℕ) : Option ClientRegistry := do
  let clients ← s.clients.step e
  let list ← (s.list.construct i).add i
  return ⟨clients, list⟩

/-- An event with the destructor, which begins with `_remove`. -/
def leave (s : ClientRegistry) (e : WiFiClientEvent) (i : ℕ) :
    Fueled (Option ClientRegistry) := do
  let removed ← s.list.remove i
  pure (do
    let list ← removed
    let clients ← s.clients.step e
    return ⟨clients, list.destruct i⟩)

/-- A loop over all clients, with what it does to each. -/
def visit (s : ClientRegistry) (body : RefPool ℕ → ℕ → RefPool ℕ) :
    Fueled (Option ClientRegistry) := do
  let pool ← s.list.forEach body s.clients.pool
  pure (pool.map fun pool => ⟨⟨pool, s.clients.attempts⟩, s.list⟩)

/-- One event over the pointers; the result is `none` where the code follows a
null pointer, or one to an object that is not there. -/
def exec (s : ClientRegistry) (e : WiFiClientEvent) : Fueled (Option ClientRegistry) :=
  match e with
  | .construct i | .available i _ | .copy i _ => pure (s.enter e i)
  | .destroy i => s.leave e i
  | .stopAll => s.visit fun pool i => pool.dismiss i
  | .stopAllExcept ex => s.visit fun pool i => if pool.ptr i = pool.ptr ex then pool
      else pool.dismiss i
  | .accept | .assign _ _ | .connect _ _ | .connected _ | .use _ | .stop _ =>
    pure ((s.clients.step e).map fun clients => ⟨clients, s.list⟩)

/-- The events of a run. -/
def execAll : ClientRegistry → List WiFiClientEvent → Fueled (Option ClientRegistry)
  | s, [] => pure (some s)
  | s, e :: es => do
    match ← s.exec e with
    | none => pure none
    | some t => execAll t es

/-- **The links lead over the objects there are.** -/
def Exact (s : ClientRegistry) : Prop := s.list.Represents s.clients.pool.objects

variable {s t : ClientRegistry} {c : WiFiClients} {e : WiFiClientEvent}

theorem enter_follows {i : ℕ} (h : s.Exact) (hstep : s.clients.step e = some c)
    (hi : i ∉ s.clients.pool.objects)
    (hobjects : c.pool.objects = i :: s.clients.pool.objects) :
    ∃ t, s.enter e i = some t ∧ t.clients = c ∧ t.Exact := by
  obtain ⟨list, hadd, hlist⟩ := h.add hi
  refine ⟨⟨c, list⟩, ?_, rfl, ?_⟩
  · unfold enter
    rw [hstep, Option.bind_eq_bind, Option.bind_some, hadd]
    rfl
  · show list.Represents c.pool.objects
    rwa [hobjects]

theorem leave_follows {i : ℕ} (h : s.Exact) (hstep : s.clients.step e = some c)
    (hi : i ∈ s.clients.pool.objects)
    (hobjects : c.pool.objects = s.clients.pool.objects.erase i) :
    ∃ t, (s.leave e i).Yields (some t) ∧ t.clients = c ∧ t.Exact := by
  obtain ⟨list, hremove, hlist⟩ := h.remove hi
  refine ⟨⟨c, list.destruct i⟩, hremove.bind ?_, rfl, ?_⟩
  · rw [hstep]
    exact Fueled.yields_pure _
  · show (list.destruct i).Represents c.pool.objects
    rwa [hobjects]

/-- **A loop over the pointers** is the loop over the objects. -/
theorem yields_visit (h : s.Exact) (body : RefPool ℕ → ℕ → RefPool ℕ) :
    (s.visit body).Yields
      (some ⟨⟨s.clients.pool.objects.foldl body s.clients.pool, s.clients.attempts⟩, s.list⟩) :=
  (h.yields_forEach body s.clients.pool).bind (Fueled.yields_pure _)

/-- **One event over the pointers** does what it does to the list of objects. -/
theorem exec_follows (h : s.Exact) (hstep : s.clients.step e = some c) :
    ∃ t, (s.exec e).Yields (some t) ∧ t.clients = c ∧ t.Exact := by
  have hobjects := WiFiClients.objects_step hstep
  have hkeep : WiFiClients.live s.clients.pool.objects e = s.clients.pool.objects →
      (⟨c, s.list⟩ : ClientRegistry).Exact := fun hsame => by
    show s.list.Represents c.pool.objects
    rw [hobjects, hsame]
    exact h
  cases e with
  | construct i =>
    obtain ⟨t, henter, ht⟩ := enter_follows h hstep (Machine.of_guard_not hstep).1 hobjects
    exact ⟨t, henter ▸ Fueled.yields_pure _, ht⟩
  | available i k =>
    obtain ⟨t, henter, ht⟩ := enter_follows h hstep (Machine.of_guard hstep).1.1 hobjects
    exact ⟨t, henter ▸ Fueled.yields_pure _, ht⟩
  | copy i j =>
    obtain ⟨t, henter, ht⟩ := enter_follows h hstep (Machine.of_guard hstep).1.1 hobjects
    exact ⟨t, henter ▸ Fueled.yields_pure _, ht⟩
  | destroy i => exact leave_follows h hstep (Machine.of_guard hstep).1 hobjects
  | stopAll =>
    obtain rfl := Option.some.inj hstep
    exact ⟨_, yields_visit h _, rfl, hkeep rfl⟩
  | stopAllExcept ex =>
    obtain ⟨-, rfl⟩ := Machine.of_guard hstep
    exact ⟨_, yields_visit h _, rfl, hkeep rfl⟩
  | accept | assign _ _ | connect _ _ | connected _ | use _ | stop _ =>
    refine ⟨⟨c, s.list⟩, ?_, rfl, hkeep rfl⟩
    unfold exec
    rw [hstep]
    exact Fueled.yields_pure _

/-- **A run over the pointers.** -/
theorem execAll_follows {es : List WiFiClientEvent} (h : s.Exact)
    (hrun : WiFiClients.machine.run s.clients es = some c) :
    ∃ t, (s.execAll es).Yields (some t) ∧ t.clients = c ∧ t.Exact := by
  induction es generalizing s with
  | nil =>
    obtain rfl := Option.some.inj hrun
    exact ⟨s, Fueled.yields_pure _, rfl, h⟩
  | cons e es ih =>
    obtain ⟨d, hstep, hrun⟩ := (Machine.run_cons_eq_some _).mp hrun
    obtain ⟨u, hexec, rfl, hu⟩ := exec_follows h hstep
    obtain ⟨t, hrest, ht⟩ := ih hu hrun
    exact ⟨t, hexec.bind hrest, ht⟩

/-- The objects after a run are those that were constructed and not destroyed. -/
theorem objects_of_run {es : List WiFiClientEvent} {s : WiFiClients}
    (hrun : WiFiClients.machine.run s es = some c) :
    c.pool.objects = es.foldl WiFiClients.live s.pool.objects := by
  induction es generalizing s with
  | nil =>
    obtain rfl := Option.some.inj hrun
    rfl
  | cons e es ih =>
    obtain ⟨d, hstep, hrun⟩ := (Machine.run_cons_eq_some _).mp hrun
    rw [List.foldl_cons, ← WiFiClients.objects_step hstep]
    exact ih hrun

/-- **The registry is exact.** In every run of the clients, in which objects
are constructed, copied, assigned and destroyed in any order, no null pointer
and no link to an object that is gone is followed. The links from `_s_first`
lead over the objects that were constructed and not destroyed, each once, to
null; and a loop over them, as those of `stopAll` and `stopAllExcept`, ends
after one turn for each of them. -/
theorem registry_exact {es : List WiFiClientEvent}
    (hrun : WiFiClients.machine.run WiFiClients.init es = some c) :
    ∃ s, (init.execAll es).Yields (some s) ∧ s.clients = c ∧
      c.pool.objects = es.foldl WiFiClients.live [] ∧ c.pool.objects.Nodup ∧
      Linked.Path s.list.next s.list.first c.pool.objects ∧
      (∀ i, (s.list.next i).isSome = true ↔ i ∈ c.pool.objects) ∧
      (∀ (σ : Type) (body : σ → ℕ → σ) (a : σ),
        (s.list.forEach body a).Yields (some (c.pool.objects.foldl body a))) ∧
      (s.exec .stopAll).Yields (some ⟨⟨c.pool.dismissAll, c.attempts⟩, s.list⟩) ∧
      ∀ ex, (s.exec (.stopAllExcept ex)).Yields
        (some ⟨⟨c.pool.dismissAllExcept ex, c.attempts⟩, s.list⟩) := by
  obtain ⟨s, hexec, rfl, hs⟩ := execAll_follows (s := init) SList.represents_init hrun
  exact ⟨s, hexec, rfl, objects_of_run hrun, hs.path.nodup, hs.path, hs.there,
    fun _ body a => hs.yields_forEach body a, yields_visit hs _, fun _ => yields_visit hs _⟩

/-- Four objects, of which the second and the first one go. -/
def someGo : List WiFiClientEvent :=
  [.construct 1, .copy 2 1, .construct 3, .assign 3 1, .destroy 2, .copy 4 3, .stopAllExcept 3,
    .destroy 1]

theorem registry_exact_someGo :
    ∃ c, WiFiClients.machine.run WiFiClients.init someGo = some c ∧ c.pool.objects = [4, 3] ∧
      ∃ s, (init.execAll someGo).Yields (some s) ∧
        Linked.Path s.list.next s.list.first [4, 3] := by
  have hruns : (WiFiClients.machine.run WiFiClients.init someGo).isSome = true := by decide
  obtain ⟨c, hrun⟩ := Option.isSome_iff_exists.mp hruns
  obtain ⟨s, hexec, -, hobjects, -, hpath, -⟩ := registry_exact hrun
  have hlive : c.pool.objects = [4, 3] := hobjects.trans (by decide)
  exact ⟨c, hrun, hlive, s, hexec, hlive ▸ hpath⟩

end ClientRegistry
