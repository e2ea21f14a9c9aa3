import AgentMarkup.Proofs.Registry.Ledger

/-!
Unregistering undoes a registration. Striking an extension out of a ledger commutes with
every call that does not name it (`forget_record`), and striking it out right after its
registration gives back the ledger before (`forget_record_register`). Since a ledger
determines its registry, a run with an extension registered before it and unregistered
after it ends like the run alone, and its calls answer alike on the way
(`after_unregister_of_register`).
-/

set_option autoImplicit false
set_option relaxedAutoImplicit false

namespace AgentMarkup

namespace Registry

namespace Ledger

variable {l : Ledger} {r r' : Registry} {name : String}

theorem forget_append (l : Ledger) (live : List Extension) (entries : List Entry)
    (name : String) :
    Ledger.forget ⟨l.live ++ live, l.entries ++ entries⟩ name =
      ⟨(l.forget name).live ++ live.filter (·.name ≠ name),
        (l.forget name).entries ++ entries.filter (·.source ≠ .extension name)⟩ := by
  simp only [forget, List.filter_append]

theorem filter_entriesOf_self (e : Extension) :
    (entriesOf e).filter (·.source ≠ .extension e.name) = [] := by
  rw [List.filter_eq_nil_iff]
  intro entry hentry
  obtain ⟨primitive, -, rfl⟩ := List.mem_map.mp hentry
  simp

theorem filter_entriesOf_of_ne {e : Extension} (h : e.name ≠ name) :
    (entriesOf e).filter (·.source ≠ .extension name) = entriesOf e := by
  rw [List.filter_eq_self]
  intro entry hentry
  obtain ⟨primitive, -, rfl⟩ := List.mem_map.mp hentry
  simpa using h

/-- Striking an extension out right after its registration undoes it. -/
theorem forget_record_register (howned : l.Owned) {e : Extension} (h : l.Accepts e) :
    (l.record (.register e)).forget e.name = l := by
  rw [record, if_pos h, forget_append, forget_eq_self howned h.2, filter_entriesOf_self]
  simp

theorem accepts_forget {e : Extension} (h : e.name ≠ name) :
    (l.forget name).Accepts e ↔ l.Accepts e := by
  refine and_congr_right fun _ ↦ ?_
  constructor
  · intro hfree other hother hname
    have hkept : other ∈ (l.forget name).live :=
      List.mem_filter.mpr ⟨hother, by simpa [hname] using h⟩
    exact hfree other hkept hname
  · intro hfree other hother
    exact hfree other (List.mem_filter.mp hother).1

/-- Striking out commutes with every call that does not name the extension. -/
theorem forget_record {op : Operation} (h : ¬ op.Names name) :
    (l.record op).forget name = (l.forget name).record op := by
  cases op with
  | register e =>
    have hname : e.name ≠ name := h
    rw [record, record]
    by_cases haccepts : l.Accepts e
    · rw [if_pos haccepts, if_pos ((accepts_forget hname).mpr haccepts), forget_append,
        filter_entriesOf_of_ne hname, List.filter_cons_of_pos (by simpa using hname),
        List.filter_nil]
    · rw [if_neg haccepts, if_neg (mt (accepts_forget hname).mp haccepts)]
  | unregister other =>
    simp only [record, forget, List.filter_filter, Bool.and_comm]
  | registerPrimitive kind schema =>
    have happend := forget_append l [] [⟨kind, .adHoc, schema⟩] name
    simpa [record] using happend
  | clear => rfl

theorem forget_recordAll {ops : List Operation} (h : ∀ op ∈ ops, ¬ op.Names name) :
    (l.recordAll ops).forget name = (l.forget name).recordAll ops := by
  induction ops generalizing l with
  | nil => rfl
  | cons op rest ih =>
    obtain ⟨hop, hrest⟩ := List.forall_mem_cons.mp h
    rw [recordAll, recordAll, ih hrest, forget_record hop]

/-- An extension of another name is live in both ledgers or in none. -/
theorem extension?_eq_of_forget (h : l.Describes r) (h' : (l.forget name).Describes r')
    {other : String} (hother : other ≠ name) : r.extension? other = r'.extension? other := by
  rw [h.extension?_eq, h'.extension?_eq, forget, List.find?_filter]
  congr 1
  funext e
  by_cases he : e.name = other
  · simp [he, hother]
  · simp [he]

/-- Two registries whose ledgers differ in one extension answer alike to calls that do not
name it. -/
theorem replies_eq_of_forget (h : l.Describes r) (howned : l.Owned)
    (h' : (l.forget name).Describes r') {ops : List Operation}
    (hops : ∀ op ∈ ops, ¬ op.Names name) : r.replies ops = r'.replies ops := by
  induction ops generalizing l r r' with
  | nil => rfl
  | cons op rest ih =>
    obtain ⟨hop, hrest⟩ := List.forall_mem_cons.mp hops
    have hreply : (r.perform op).1 = (r'.perform op).1 := by
      refine perform_fst_congr fun other hnames ↦ extension?_eq_of_forget h h' ?_
      rintro rfl
      exact hop hnames
    have hnext : ((l.record op).forget name).Describes (r'.perform op).2 := by
      rw [forget_record hop]
      exact describes_perform h' (owned_record howned (.unregister name)) op
    have htail := ih (describes_perform h howned op) (owned_record howned op) hnext hrest
    rw [replies, replies, hreply, htail]

end Ledger

theorem Reachable.exists_ledger {r : Registry} (h : r.Reachable) :
    ∃ l : Ledger, l.Describes r ∧ l.Owned := by
  obtain ⟨ops, rfl⟩ := h
  exact ⟨_, Ledger.describes_recordAll Ledger.describes_empty Ledger.owned_empty ops⟩

/-- Registering an extension, making calls that do not name it and unregistering it leaves
the registry as these calls alone would, and they answer as they would alone. -/
theorem after_unregister_of_register {r registered : Registry} {e : Extension}
    {ops : List Operation} (hreachable : r.Reachable) (hregister : r.register e = .ok registered)
    (hops : ∀ op ∈ ops, ¬ op.Names e.name) :
    (registered.after ops).unregister e.name = r.after ops ∧
      registered.replies ops = r.replies ops := by
  obtain ⟨l, hl, howned⟩ := hreachable.exists_ledger
  obtain ⟨hadmissible, hfree⟩ := register_isOk_iff.mp ⟨registered, hregister⟩
  have haccepts : l.Accepts e := ⟨hadmissible, hl.extension?_eq_none_iff.mp hfree⟩
  have hregistered : (l.record (.register e)).Describes registered := by
    have hstep := Ledger.describes_perform hl howned (.register e)
    rwa [perform, hregister] at hstep
  have howned' := Ledger.owned_record howned (.register e)
  have hforget := Ledger.forget_record_register howned haccepts
  constructor
  · obtain ⟨hafter, hafterOwned⟩ := Ledger.describes_recordAll hregistered howned' ops
    have hundone := Ledger.describes_unregister hafter hafterOwned e.name
    rw [Ledger.forget_recordAll hops, hforget] at hundone
    exact hundone.unique (Ledger.describes_recordAll hl howned ops).1
  · refine Ledger.replies_eq_of_forget hregistered howned' ?_ hops
    rwa [hforget]

/-- The extension covers an ad-hoc schema of a built-in kind and has a kind of its own; then
another extension covers the first kind for a while and an ad-hoc schema the second. -/
theorem after_unregister_shadowing_tool :
    let r := empty.after [.registerPrimitive "tool" (.empty "")]
    let e := (Extension.bare "charts" "1").withPrimitive (.empty "chart")
      |>.withPrimitive (.empty "tool")
    let ops : List Operation := [
      .register ((Extension.bare "base" "2").withPrimitive (.empty "tool")),
      .unregister "missing", .registerPrimitive "chart" (.empty ""), .unregister "base"]
    ∃ registered, r.Reachable ∧ r.register e = .ok registered ∧
      (∀ op ∈ ops, ¬ op.Names e.name) ∧
      (registered.after ops).unregister e.name = r.after ops ∧
      registered.replies ops = r.replies ops := by
  intro r e ops
  have hreachable : r.Reachable := ⟨_, rfl⟩
  have hops : ∀ op ∈ ops, ¬ op.Names e.name := by
    simp [ops, e, Operation.Names, Extension.bare, Extension.withPrimitive]
  obtain ⟨registered, hregister⟩ := register_isOk_iff.mpr
    ⟨(by decide +kernel : e.Admissible), (rfl : r.extension? e.name = none)⟩
  exact ⟨registered, hreachable, hregister, hops,
    after_unregister_of_register hreachable hregister hops⟩

end Registry

end AgentMarkup
