import FiduciaMessaging.Deploy.Shutdown

/-! What a deployment forgets, and when. A row leaves the table only by a purge, which the
settings of a relay switch on for whole hours; so an id or a business key is accepted again
only after its first row was published and kept for the configured age. -/
namespace FiduciaMessaging

open Runs RowSet

section Retention

variable [External] {f f' g h : Fleet} {a : FleetAction} {s : System} {now : Timestamp}
  {deployed : Option StreamConfig} {row : OutboxRow} {record : OutboxRecord}

/- Producers enqueue only what the constructors build. -/
def FleetAction.Builds (a : FleetAction) : Prop := ∀ act, a = .work act → act.Builds

theorem builds_of_owner {act : Action} {o : Uuid} (owned : act.owner = some o) : act.Builds := by
  rintro record startedAt rfl
  cases owned

theorem moves_reaches (builds : a.Builds) (moves : f.Moves a s) :
    Reaches System.step (fun _ act => act.Builds) f.system s := by
  cases moves with
  | still => exact .refl
  | claimed _ _ _ taken => exact Reaches.refl.tail (builds_of_owner rfl) taken
  | crashed _ _ taken => exact Reaches.refl.tail (builds_of_owner rfl) taken
  | @purged _ age _ _ _ =>
    have purges : (Action.purge age).Builds := by
      rintro record startedAt same
      cases same
    exact Reaches.refl.tail purges rfl
  | worked _ _ taken => exact Reaches.refl.tail (builds _ rfl) taken
  | @ticked elapsed s taken =>
    have ticks : (Action.tick elapsed).Builds := by
      rintro record startedAt same
      cases same
    exact Reaches.refl.tail ticks taken
  | @stored message s _ taken =>
    have appends : (Action.append message).Builds := by
      rintro record startedAt same
      cases same
    exact Reaches.refl.tail appends taken

/-- A run of the deployment is a run of the relay machine on its database and broker. -/
theorem fleet_reaches (reached : Reaches Fleet.step (fun _ a => a.Builds) f g) :
    Reaches System.step (fun _ act => act.Builds) f.system g.system := by
  induction reached with
  | refl => exact .refl
  | tail _ builds taken ih => exact ih.trans (moves_reaches builds (fleet_moves taken))

theorem relayMain_retention {env : Environment} {answers : Answers} {stream : Option StreamConfig}
    {service : RelayService} (started : relayMain env answers deployed = (stream, .ok service)) :
    service.retention = relayRetention env := by
  unfold relayMain at started
  generalize startup env answers _ _ deployed = outcome at started
  obtain ⟨_, ended⟩ := outcome
  cases ended with
  | error error => simp [Except.map] at started
  | ok nats =>
    simp only [Except.map, Prod.mk.injEq, Except.ok.injEq] at started
    exact started.2 ▸ rfl

/-- The retention of every process that runs came from the settings it was started with. -/
theorem retention_configured {ok : Fleet → FleetAction → Prop}
    (reached : Reaches Fleet.step ok (.initial now deployed) f) {n : Nat} {p : Process}
    (found : f.processes n = some p) : ∃ env, p.service.retention = relayRetention env := by
  have kept : ∀ n p, f.processes n = some p →
      ∃ env, p.service.retention = relayRetention env := by
    apply reached.invariant (fun f => ∀ n p, f.processes n = some p →
      ∃ env, p.service.retention = relayRetention env)
    · intro n p found
      cases found
    · intro x a y before _ taken n p found
      rcases fleet_process taken found with ⟨q, old, moved⟩ |
        ⟨env, answers, _, _, _, started⟩
      · rw [moved.service]
        exact before n q old
      · exact ⟨env, relayMain_retention started⟩
  exact kept n p found

/-- A row stays through a step of the relay machine that is no purge. -/
theorem row_survives {x y : System} {act : Action} (tracked : Tracked x)
    (keeps : ∀ age, act ≠ .purge age) (taken : x.step act = some y) (inside : row ∈ x.table) :
    ∃ r ∈ y.table, r.toStaged = row.toStaged := by
  obtain ⟨r, inside', moved⟩ | ⟨⟨age, purge⟩, _⟩ := row_image tracked.apart taken inside
  · exact ⟨r, inside', moved.toStaged⟩
  · exact absurd purge (keeps age)

/-- In one step of the deployment a row stays, or a running relay purges. -/
theorem fleet_row (tracked : Tracked f.system) (taken : f.step a = some f')
    (inside : row ∈ f.system.table) : (∃ r ∈ f'.system.table, r.toStaged = row.toStaged) ∨
      ∃ n p age, a = .purge n ∧ f.running n = some p ∧ p.service.retention = some age ∧
        f'.system = f.system.purge age := by
  have moves := fleet_moves taken
  generalize after : f'.system = s at moves
  cases moves with
  | still => exact .inl ⟨row, inside, rfl⟩
  | claimed _ _ _ step => exact .inl (row_survives tracked (by simp) step inside)
  | crashed _ _ step => exact .inl (row_survives tracked (by simp) step inside)
  | purged found configured => exact .inr ⟨_, _, _, rfl, found, configured, rfl⟩
  | @worked act _ _ _ step =>
    refine .inl (row_survives tracked ?_ step inside)
    rintro age rfl
    cases taken
  | ticked step => exact .inl (row_survives tracked (by simp) step inside)
  | stored _ step => exact .inl (row_survives tracked (by simp) step inside)

omit [External] in
/-- What a purge deletes was marked published longer ago than its age. -/
theorem purge_aged {age : Duration} (inside : row ∈ s.table)
    (gone : row ∉ (s.purge age).table) :
    row.status = .published ∧ ∃ marked, row.publishedAt = some marked ∧
      marked + age.asMillis * millisecond < s.now := by
  unfold System.purge purgePublishedOutbox at gone
  cases finite : positiveMs age "retention age" with
  | error error =>
    simp only [finite, bind, Except.bind] at gone
    exact absurd inside gone
  | ok ms =>
    have length : ms = age.asMillis := by
      unfold positiveMs at finite
      split at finite
      · exact (Except.ok.inj finite).symm
      · cases finite
    simp only [finite, bind, Except.bind, pure, Except.pure] at gone
    cases old : row.purgeable (s.now - ms * millisecond) with
    | false => exact absurd (mem_deleteWhere.mpr ⟨inside, old⟩) gone
    | true =>
      simp only [OutboxRow.purgeable, Bool.and_eq_true, beq_iff_eq, Option.any_eq_true,
        decide_eq_true_eq] at old
      obtain ⟨published, marked, stamp, before⟩ := old
      refine ⟨published, marked, stamp, ?_⟩
      rw [← length]
      unfold Timestamp at *
      omega

/- A purge of this relay now deletes the row: it was marked published, the broker has stored a
message with its dedup id, and its mark is older than the hours the relay is set to. -/
structure Fleet.Expires (u : Fleet) (n hours : Nat) (row : OutboxRow) : Prop where
  relay : ∃ p, u.running n = some p ∧
    p.service.retention = some (Duration.fromSecs (hours * 3600))
  positive : 1 ≤ hours
  fits : hours * 3600 ≤ u64Max
  aged : ∃ r ∈ u.system.table, r.toStaged = row.toStaged ∧ r.status = .published ∧
    ∃ marked, r.publishedAt = some marked ∧ marked + hours * 3600 * second < u.system.now
  stored : u.system.stored row.dedupId = true

def Fleet.Retires (f g : Fleet) (row : OutboxRow) : Prop :=
  ∃ u v n hours, Reaches Fleet.step (fun _ a => a.Builds) f u ∧ u.step (.purge n) = some v ∧
    Reaches Fleet.step (fun _ a => a.Builds) v g ∧ u.Expires n hours row

omit [External] in
theorem asMillis_hours (hours : Nat) :
    ((Duration.fromSecs (hours * 3600)).asMillis : Int) * millisecond = hours * 3600 * second := by
  unfold Duration.fromSecs Duration.asMillis millisecond second
  omega

theorem retires_of_gone (before : Reaches Fleet.step (fun _ a => a.Builds)
    (.initial now deployed) f)
    (later : Reaches Fleet.step (fun _ a => a.Builds) f g) (inside : row ∈ f.system.table)
    (gone : ∀ r ∈ g.system.table, r.toStaged ≠ row.toStaged) : f.Retires g row := by
  have lost : ¬ ∃ r ∈ g.system.table, r.toStaged = row.toStaged := by simpa using gone
  obtain ⟨u, a, v, front, _, taken, back, ⟨r, here, same⟩, absent⟩ := later.exists_step_lost
    (fun f => ∃ r ∈ f.system.table, r.toStaged = row.toStaged) ⟨row, inside, rfl⟩ lost
  have machine := fleet_reaches (before.trans front)
  have tracked := tracked_of_reaches (tracked_initial now) machine
  have confirmed := confirmed_of_reaches (fun _ _ builds => builds) machine
  rcases fleet_row tracked taken here with ⟨r', stays, same'⟩ |
    ⟨n, p, age, rfl, found, set, after⟩
  · exact absurd ⟨r', stays, same'.trans same⟩ absent
  · obtain ⟨env, setting⟩ := retention_configured (before.trans front) (running_found found).1
    obtain ⟨hours, positive, fits, rfl⟩ := relayRetention_hours (setting.symm.trans set)
    have deleted : r ∉ (u.system.purge (Duration.fromSecs (hours * 3600))).table := by
      intro stays
      exact absent ⟨r, after ▸ stays, same⟩
    obtain ⟨published, marked, stamp, aged⟩ := purge_aged here deleted
    rw [asMillis_hours] at aged
    have stored := confirmed.published r here published
    rw [show r.dedupId = row.dedupId from congrArg Staged.dedupId same] at stored
    refine ⟨u, v, n, hours, front, taken, back, ⟨p, found, set⟩, positive, fits, ?_, stored⟩
    exact ⟨r, here, same, published, marked, stamp, aged⟩

/-- A deployment accepts a row id, a dedup id or a business key again only after the first row
with it was marked published and purged, and the purge came at least an hour after its mark, by
whatever hours the relay was configured with. By then the broker had stored its dedup id. -/
theorem accepted_again_after_retention
    (before : Reaches Fleet.step (fun _ a => a.Builds) (.initial now deployed) f)
    (later : Reaches Fleet.step (fun _ a => a.Builds) f g) (inside : row ∈ f.system.table)
    {startedAt : Timestamp} (again : g.step (.work (.enqueue record startedAt)) = some h)
    (accepted : h.system.table ≠ g.system.table)
    (clash : row.toStaged.conflicts record.toStaged = true) : f.Retires g row := by
  apply retires_of_gone before later inside
  intro r here same
  obtain ⟨s, taken, rfl⟩ := Option.map_eq_some_iff.mp again
  have step : g.system.step (.enqueue record startedAt) = some s := taken
  have shape := step_table step
  change s.table ≠ g.system.table at accepted
  generalize s.table = after at shape accepted
  cases shape with
  | same => exact accepted rfl
  | inserted record startedAt valid clear =>
    have free := clear r here
    rw [same, clash] at free
    cases free

end Retention

namespace Sample

/- The settings of `env`, and two hours of retention. -/
def retainingEnv : Environment := fun name =>
  if name = "RELAY_RETENTION_HOURS" then some "2" else env name

def stagingRun : List FleetAction := [.boot 0 retainingEnv answers, .work (.enqueue order1 0)]

/- The order is published and settled; three hours later it is purged. -/
def forgettingRun : List FleetAction :=
  [.timer 0 1 plan .ok, .work (.database 1 .ok 0), .work (.publish 1), .arrive (message order1),
    .work (.answer 1 (.ok ())), .work (.database 1 .ok 0), .returned 0, .tick 10800000000, .purge 0]

end Sample

section Sample

attribute [local instance] Sample.external

open Sample

theorem orders_built : ∀ a ∈ stagingRun ++ forgettingRun, a.Builds := by
  rintro a member act rfl record startedAt rfl
  have same : record = order1 := by
    simp only [stagingRun, forgettingRun, List.cons_append, List.nil_append, List.mem_cons,
      List.not_mem_nil, reduceCtorEq, FleetAction.work.injEq, Action.enqueue.injEq, or_false,
      false_or] at member
    exact member.1
  exact same ▸ .pending _ _ _ _ _

theorem accepted_again_after_retention_order : ∃ f g h,
    run Fleet.step (.initial 0 none) stagingRun = some f ∧
      run Fleet.step f forgettingRun = some g ∧
    g.step (.work (.enqueue order1 0)) = some h ∧ f.system.table.length = 1 ∧
    ∀ row ∈ f.system.table, f.Retires g row := by
  have staged : (run Fleet.step (.initial 0 none) stagingRun).map (fun f =>
      (f.system.table.length, f.system.table.all
        (fun row => row.toStaged.conflicts order1.toStaged),
        (run Fleet.step f forgettingRun).map (fun g => (g.system.table.length,
          (g.step (.work (.enqueue order1 0))).map (fun h => h.system.table.length))))) =
      some (1, true, some (0, some 1)) := by decide +kernel
  obtain ⟨f, first, shape⟩ := Option.map_eq_some_iff.mp staged
  obtain ⟨one, rest⟩ := Prod.mk.inj shape
  obtain ⟨clash, rest⟩ := Prod.mk.inj rest
  obtain ⟨g, second, rest⟩ := Option.map_eq_some_iff.mp rest
  obtain ⟨empty, rest⟩ := Prod.mk.inj rest
  obtain ⟨h, again, full⟩ := Option.map_eq_some_iff.mp rest
  refine ⟨f, g, h, first, second, again, one, ?_⟩
  intro row inside
  have accepted : h.system.table ≠ g.system.table := by
    intro same
    rw [same, empty] at full
    cases full
  exact accepted_again_after_retention
    (reaches_of_run _ _ first (fun _ a member => orders_built a (List.mem_append_left _ member)))
    (reaches_of_run _ _ second (fun _ a member => orders_built a (List.mem_append_right _ member)))
    inside again accepted (List.all_eq_true.mp clash row inside)

end Sample

end FiduciaMessaging
