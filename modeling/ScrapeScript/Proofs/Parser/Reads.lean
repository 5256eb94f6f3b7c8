import ScrapeScript.Proofs.Parser.Faults
import ScrapeScript.Proofs.Parser.Makes

namespace ScrapeScript

/-- Which tokens stand for which things. -/
abbrev Language (α : Type) := List Token → α → Prop

namespace Language

variable {α β : Type}

/-- Tokens that can be completed. -/
abbrev Begins (l : Language α) (ts : List Token) : Prop := ∃ us a, l (ts ++ us) a

def bind (l : Language α) (m : α → Language β) : Language β :=
  fun ts b => ∃ us vs a, ts = us ++ vs ∧ l us a ∧ m a vs b

/-- One token of the kinds `p`, and what may follow it. -/
def after (p : TokenKind → Bool) (m : Token → Language β) : Language β :=
  fun ts b => ∃ t us, ts = t :: us ∧ p t.kind = true ∧ m t us b

def or (l m : Language α) : Language α := fun ts a => l ts a ∨ m ts a

/-- A token of the kinds `p` and what may follow it, or nothing. -/
def optional (p : TokenKind → Bool) (m : Token → Language α) : Language (Option α) :=
  .or (fun ts o => ts = [] ∧ o = none) (after p fun t ts o => ∃ a, o = some a ∧ m t ts a)

section Begins

variable {l m : Language α} {n : α → Language β} {ts us : List Token} {a : α}

theorem length_pos (h : l ts a) (hnil : ¬l [] a) : 0 < ts.length :=
  List.length_pos_iff.2 fun hts => hnil (hts ▸ h)

theorem Begins.nil (h : l.Begins ts) : l.Begins [] := by
  obtain ⟨us, a, ha⟩ := h
  exact ⟨ts ++ us, a, ha⟩

theorem Begins.mono (h : l.Begins ts) (hlm : ∀ ts a, l ts a → m ts a) : m.Begins ts := by
  obtain ⟨us, a, ha⟩ := h
  exact ⟨us, a, hlm _ a ha⟩

/-- What begins a first part is completed with all of a second one. -/
theorem Begins.bind (h : l.Begins ts) (hn : ∀ a, (n a).Begins []) : (l.bind n).Begins ts := by
  obtain ⟨us, a, ha⟩ := h
  obtain ⟨vs, b, hb⟩ := hn a
  exact ⟨us ++ vs, b, ts ++ us, vs, a, (List.append_assoc ts us vs).symm, ha, hb⟩

theorem begins_bind (hl : l us a) (h : (n a).Begins ts) : (l.bind n).Begins (us ++ ts) := by
  obtain ⟨vs, b, hb⟩ := h
  exact ⟨vs, b, us, ts ++ vs, a, List.append_assoc us ts vs, hl, hb⟩

theorem begins_after {p : TokenKind → Bool} {n : Token → Language β} {t : Token}
    (ht : p t.kind = true) (h : (n t).Begins ts) : (after p n).Begins (t :: ts) := by
  obtain ⟨us, b, hb⟩ := h
  exact ⟨us, b, t, ts ++ us, rfl, ht, hb⟩

end Begins

section Optional

variable {p : TokenKind → Bool} {m : Token → Language α} {ts : List Token} {a : α}

theorem optional_nil : optional p m [] none := .inl ⟨rfl, rfl⟩

theorem optional_none_iff : optional p m ts none ↔ ts = [] := by simp [optional, or, after]

theorem optional_some_iff : optional p m ts (some a) ↔ after p m ts a := by
  simp [optional, or, after]

theorem not_optional_nil_some : ¬optional p m [] (some a) := by simp [optional_some_iff, after]

end Optional

/-- What steps from `a` on make, up to one that makes nothing. -/
inductive Star (l : α → Language (Option α)) : α → Language α
  | stop {a : α} {ts : List Token} : l a ts none → Star l a ts a
  | step {a b c : α} {ts us : List Token} :
    l a ts (some b) → Star l b us c → Star l a (ts ++ us) c

/-- Nothing more is needed after a step that has been completed. -/
theorem Begins.star {l : α → Language (Option α)} {a : α} {ts : List Token}
    (h : (l a).Begins ts) (hstop : ∀ a, l a [] none) : (Star l a).Begins ts := by
  obtain ⟨us, o, ho⟩ := h
  cases o with
  | none => exact ⟨us, a, .stop ho⟩
  | some b =>
    have hstar := Star.step ho (.stop (hstop b))
    rw [List.append_nil] at hstar
    exact ⟨us, b, hstar⟩

inductive Many (l : Language (Option α)) : Language (List α)
  | stop {ts : List Token} : l ts none → Many l ts []
  | next {a : α} {as : List α} {ts us : List Token} :
    l ts (some a) → Many l us as → Many l (ts ++ us) (a :: as)

end Language

namespace Rule

variable {g : Setting} {ι : Type} {g' : ι → Setting} {α β : Type}

/-- Read at a depth, these tokens cannot be right if a token of kind `k` is next after them. -/
def Refuses (r : Rule g α) (depth : Nat) (ts : List Token) (k : TokenKind) : Prop :=
  ∀ s v, s.depth = depth → s.ahead = ts ++ v → nextKind v = k → Faulty r s

/-- A fault at a token that comes after `ts`. -/
structure FaultAfter (s : State g) (f : SyntaxFault) (ts rest : List Token) : Prop where
  ahead : s.ahead = ts ++ rest
  token : f.token = rest.headD g.final
  equals : f.cause = .assignmentTarget → f.token.kind = .equals

theorem FaultAfter.append {s t : State g} {f : SyntaxFault} {us ts rest : List Token}
    (h : FaultAfter t f ts rest) (hus : s.ahead = us ++ t.ahead) :
    FaultAfter s f (us ++ ts) rest where
  ahead := by rw [hus, h.ahead, List.append_assoc]
  token := h.token
  equals := h.equals

theorem FaultAfter.cons {s t : State g} {f : SyntaxFault} {u : Token} {ts rest : List Token}
    (h : FaultAfter t f ts rest) (hu : s.ahead = u :: t.ahead) : FaultAfter s f (u :: ts) rest :=
  h.append (show s.ahead = [u] ++ t.ahead from hu)

/-- A rule reads a language. Where it finds no fault it has read a sentence, and where it finds one,
the tokens before the fault are the beginning of a sentence. Neither depends on more than the kind
of the token after them: the rules `r'`, which may nest deeper, read and refuse the same. -/
structure Reads (loose : Prop) (r : Rule g α) (r' : ∀ i, Rule (g' i) α) (l : Language α) :
    Prop where
  possible : l.Begins []
  keeps : Keeps r
  keeps' (i : ι) : Keeps (r' i)
  clean {s t : State g} {a : α} : r s = .ok a t → t.faults = s.faults →
    t.depth = s.depth ∧ ∃ ts, s.ahead = ts ++ t.ahead ∧ l ts a ∧
      ∀ i, Makes (r' i) s.depth ts a (nextKind t.ahead)
  fault {s : State g} {f : SyntaxFault} : FirstFault r s f → ¬f.IsTooDeep →
    ∃ ts rest, FaultAfter s f ts rest ∧ (loose → l.Begins ts) ∧
      ∀ i, Refuses (r' i) s.depth ts (nextKind rest)

theorem Makes.refuses_bind {x : Rule g α} {f : α → Rule g β} {n : Nat} {us vs : List Token} {a : α}
    {j k : TokenKind} (hx : Makes x n us a j) (hf : Refuses (f a) n vs k)
    (hj : ∀ v, nextKind v = k → nextKind (vs ++ v) = j) : Refuses (x >>= f) n (us ++ vs) k := by
  intro s v hs hv hk
  rw [List.append_assoc] at hv
  exact .bind_of_ok (hx s (vs ++ v) hs hv (hj v hk)) rfl (hf _ v hs rfl hk)

namespace Reads

variable {loose : Prop} {x r : Rule g α} {x' r' : ∀ i, Rule (g' i) α} {f : α → Rule g β}
  {f' : ∀ i, α → Rule (g' i) β} {l : Language α}

theorem mono {m : Language α} (h : Reads loose r r' l) (hlm : ∀ ts a, l ts a → m ts a) :
    Reads loose r r' m where
  possible := h.possible.mono hlm
  keeps := h.keeps
  keeps' := h.keeps'
  clean hr ht := by
    obtain ⟨hdepth, ts, hts, hl, hmakes⟩ := h.clean hr ht
    exact ⟨hdepth, ts, hts, hlm ts _ hl, hmakes⟩
  fault hf hdeep := by
    obtain ⟨ts, rest, hafter, hcomplete, hrefuses⟩ := h.fault hf hdeep
    exact ⟨ts, rest, hafter, fun hloose => (hcomplete hloose).mono hlm, hrefuses⟩

theorem pure (a : α) : Reads loose (Pure.pure a : Rule g α)
    (fun i => (Pure.pure a : Rule (g' i) α)) fun ts b => ts = [] ∧ b = a where
  possible := ⟨[], a, rfl, rfl⟩
  keeps := .pure a
  keeps' _ := .pure a
  clean h _ := by
    cases h
    refine ⟨rfl, [], rfl, ⟨rfl, rfl⟩, fun i s v _ hv _ => ?_⟩
    cases hv
    rfl
  fault h := absurd h not_firstFault_self

theorem bind {m : α → Language β} (hx : Reads loose x x' l)
    (hf : ∀ a, Reads loose (f a) (fun i => f' i a) (m a)) :
    Reads loose (x >>= f) (fun i => x' i >>= f' i) (l.bind m) where
  possible := hx.possible.bind fun a => (hf a).possible
  keeps := hx.keeps.bind fun a => (hf a).keeps
  keeps' i := (hx.keeps' i).bind fun a => (hf a).keeps' i
  clean {s u b} h hu := by
    obtain ⟨a, t, hat, ht, hbu⟩ := hx.keeps.bind_clean (fun a => (hf a).keeps) h hu
    obtain ⟨hdepth, us, hus, hl, hmakes⟩ := hx.clean hat ht
    obtain ⟨hdepth', vs, hvs, hm, hmakes'⟩ := (hf a).clean hbu (hu.trans ht.symm)
    refine ⟨hdepth'.trans hdepth, us ++ vs, by rw [hus, hvs, List.append_assoc],
      ⟨us, vs, a, rfl, hl, hm⟩, fun i => (hmakes i).bind (hdepth ▸ hmakes' i) fun v hv => ?_⟩
    rw [hvs]
    exact nextKind_append_congr hv vs
  fault {s e} h hdeep := by
    obtain h | ⟨a, t, hat, ht, h⟩ := h.of_bind hx.keeps fun a => (hf a).keeps
    · obtain ⟨ts, rest, hafter, hcomplete, hrefuses⟩ := hx.fault h hdeep
      refine ⟨ts, rest, hafter, fun hloose => (hcomplete hloose).bind fun a => (hf a).possible,
        fun i s' v hs hv hk => ?_⟩
      exact (hrefuses i s' v hs hv hk).bind (hx.keeps' i) fun a => (hf a).keeps' i
    · -- The first part has been read to its end, and what it has read is made again.
      obtain ⟨hdepth, us, hus, hl, hmakes⟩ := hx.clean hat ht
      obtain ⟨vs, rest, hafter, hcomplete, hrefuses⟩ := (hf a).fault h hdeep
      refine ⟨us ++ vs, rest, hafter.append hus,
        fun hloose => Language.begins_bind hl (hcomplete hloose),
        fun i => (hmakes i).refuses_bind (hdepth ▸ hrefuses i) fun v hv => ?_⟩
      rw [hafter.ahead]
      exact nextKind_append_congr hv vs

theorem map {m : Language β} {h : α → β} (hx : Reads loose x x' l)
    (hm : ∀ ts a, l ts a → m ts (h a)) : Reads loose (h <$> x) (fun i => h <$> x' i) m := by
  simp only [map_eq_pure_bind]
  refine (hx.bind fun a => pure (h a)).mono ?_
  rintro _ _ ⟨us, _, a, rfl, ha, rfl, rfl⟩
  simpa using hm us a ha

section Tokens

variable {p : TokenKind → Bool} {k : Option Token → Rule g β}
  {k' : ∀ i, Option Token → Rule (g' i) β} {s : State g} {t : Token} {rest : List Token}

/-- What is read after a token of the right kind. -/
theorem after_clean {m : Token → Language β} (hs : s.ahead = t :: rest) (ht : p t.kind = true)
    (h : Reads loose (k (some t)) (fun i => k' i (some t)) (m t)) {b : β} {u : State g}
    (hb : (Rule.accept p >>= k) s = .ok b u) (hu : u.faults = s.faults) :
    u.depth = s.depth ∧ ∃ ts, s.ahead = ts ++ u.ahead ∧ Language.after p m ts b ∧
      ∀ i, Makes (Rule.accept p >>= k' i) s.depth ts b (nextKind u.ahead) := by
  rw [accept_bind_some hs ht] at hb
  obtain ⟨hdepth, us, hus, hm, hmakes⟩ := h.clean hb hu
  refine ⟨hdepth, t :: us, by rw [hs]; exact congrArg _ hus, ⟨t, us, rfl, ht, hm⟩, ?_⟩
  intro i s' v hs' hv hk
  rw [accept_bind_some hv ht]
  exact hmakes i { s' with ahead := us ++ v } v hs' rfl hk

theorem after_fault {m : Token → Language β} (hs : s.ahead = t :: rest) (ht : p t.kind = true)
    (h : Reads loose (k (some t)) (fun i => k' i (some t)) (m t)) {f : SyntaxFault}
    (hf : FirstFault (Rule.accept p >>= k) s f) (hdeep : ¬f.IsTooDeep) :
    ∃ ts rest, FaultAfter s f ts rest ∧
      (loose → (Language.after p m).Begins ts) ∧
      ∀ i, Refuses (Rule.accept p >>= k' i) s.depth ts (nextKind rest) := by
  unfold FirstFault at hf
  rw [accept_bind_some hs ht] at hf
  obtain ⟨ts, rest', hafter, hcomplete, hrefuses⟩ :=
    h.fault (s := { s with ahead := rest }) hf hdeep
  refine ⟨t :: ts, rest', hafter.cons hs,
    fun hloose => Language.begins_after ht (hcomplete hloose), fun i s' v hs' hv hk => ?_⟩
  unfold Faulty
  rw [accept_bind_some hv ht]
  exact hrefuses i { s' with ahead := ts ++ v } v hs' rfl hk

/-- What is read where no token of the right kind is next. -/
theorem instead_clean {m : Language β} (hs : p (nextKind s.ahead) = false)
    (h : Reads loose (k none) (fun i => k' i none) m) {b : β} {u : State g}
    (hb : (Rule.accept p >>= k) s = .ok b u) (hu : u.faults = s.faults) :
    u.depth = s.depth ∧ ∃ ts, s.ahead = ts ++ u.ahead ∧ m ts b ∧
      ∀ i, Makes (Rule.accept p >>= k' i) s.depth ts b (nextKind u.ahead) := by
  rw [accept_bind_none hs] at hb
  obtain ⟨hdepth, ts, hts, hm, hmakes⟩ := h.clean hb hu
  refine ⟨hdepth, ts, hts, hm, fun i s' v hs' hv hk => ?_⟩
  rw [accept_bind_none (by rw [hv, nextKind_append_congr hk, ← hts, hs])]
  exact hmakes i s' v hs' hv hk

theorem instead_fault {m : Language β} (hs : p (nextKind s.ahead) = false)
    (h : Reads loose (k none) (fun i => k' i none) m) {f : SyntaxFault}
    (hf : FirstFault (Rule.accept p >>= k) s f) (hdeep : ¬f.IsTooDeep) :
    ∃ ts rest, FaultAfter s f ts rest ∧ (loose → m.Begins ts) ∧
      ∀ i, Refuses (Rule.accept p >>= k' i) s.depth ts (nextKind rest) := by
  unfold FirstFault at hf
  rw [accept_bind_none hs] at hf
  obtain ⟨ts, rest, hafter, hcomplete, hrefuses⟩ := h.fault hf hdeep
  refine ⟨ts, rest, hafter, hcomplete, fun i s' v hs' hv hk => ?_⟩
  unfold Faulty
  rw [accept_bind_none (by rw [hv, nextKind_append_congr hk, ← hafter.ahead, hs])]
  exact hrefuses i s' v hs' hv hk

/-- The kind of the next token tells which of two languages is read. -/
theorem branch {l : Language β} {m : Token → Language β} (hp : p .endOfFile = false)
    (hnone : Reads loose (k none) (fun i => k' i none) l)
    (hsome : ∀ t, p t.kind = true → Reads loose (k (some t)) (fun i => k' i (some t)) (m t)) :
    Reads loose (Rule.accept p >>= k) (fun i => Rule.accept p >>= k' i) (l.or (.after p m)) where
  possible := hnone.possible.mono fun _ _ => .inl
  keeps := .accept_bind hp hnone.keeps fun t ht => (hsome t ht).keeps
  keeps' i := .accept_bind hp (hnone.keeps' i) fun t ht => (hsome t ht).keeps' i
  clean {s u b} h hu := by
    obtain hs | ⟨t, rest, hs, ht⟩ := accepts_or_not p hp s.ahead
    · obtain ⟨hdepth, ts, hts, hl, hmakes⟩ := instead_clean hs hnone h hu
      exact ⟨hdepth, ts, hts, .inl hl, hmakes⟩
    · obtain ⟨hdepth, ts, hts, hm, hmakes⟩ := after_clean hs ht (hsome t ht) h hu
      exact ⟨hdepth, ts, hts, .inr hm, hmakes⟩
  fault {s f} h hdeep := by
    obtain hs | ⟨t, rest, hs, ht⟩ := accepts_or_not p hp s.ahead
    · obtain ⟨ts, rest, hafter, hcomplete, hrefuses⟩ := instead_fault hs hnone h hdeep
      exact ⟨ts, rest, hafter, fun hloose => (hcomplete hloose).mono fun _ _ => .inl, hrefuses⟩
    · obtain ⟨ts, rest, hafter, hcomplete, hrefuses⟩ := after_fault hs ht (hsome t ht) h hdeep
      exact ⟨ts, rest, hafter, fun hloose => (hcomplete hloose).mono fun _ _ => .inr, hrefuses⟩

/-- A token of the kinds `p` has to be next. -/
theorem expect {c : Cause} {m : Token → Language β} (hp : p .endOfFile = false)
    (hc : c ≠ .assignmentTarget) (kind : TokenKind) (hkind : p kind = true)
    (hnone : k none = Rule.fail c) (hnone' : ∀ i, k' i none = Rule.fail c)
    (hsome : ∀ t, p t.kind = true → Reads loose (k (some t)) (fun i => k' i (some t)) (m t)) :
    Reads loose (Rule.accept p >>= k) (fun i => Rule.accept p >>= k' i) (.after p m) where
  possible := (Language.begins_after hkind (hsome (.ofKind kind) hkind).possible).nil
  keeps := .accept_bind hp (hnone ▸ .fail c) fun t ht => (hsome t ht).keeps
  keeps' i := .accept_bind hp (hnone' i ▸ .fail c) fun t ht => (hsome t ht).keeps' i
  clean {s u b} h hu := by
    obtain hs | ⟨t, rest, hs, ht⟩ := accepts_or_not p hp s.ahead
    · rw [accept_bind_none hs, hnone] at h
      cases h
    · exact after_clean hs ht (hsome t ht) h hu
  fault {s f} h hdeep := by
    obtain hs | ⟨t, rest, hs, ht⟩ := accepts_or_not p hp s.ahead
    · unfold FirstFault at h
      rw [accept_bind_none hs, hnone] at h
      obtain rfl := firstFault_fail_iff.1 h
      refine ⟨[], s.ahead, ⟨rfl, rfl, fun h => absurd h hc⟩, fun _ => ?_, fun i s' v _ hv hk => ?_⟩
      · exact (Language.begins_after hkind (hsome (.ofKind kind) hkind).possible).nil
      · unfold Faulty
        rw [accept_bind_none (by rw [hv, List.nil_append, hk, hs]), hnone']
        exact faulty_fail
    · exact after_fault hs ht (hsome t ht) h hdeep

/-- A sign of assignment behind what is no target is refused, though not before its value. -/
theorem refuse {l : Language α} {m : Language β} {x : Rule g α} {x' : ∀ i, Rule (g' i) α}
    (hx : Reads loose x x' l) (hnone : Reads loose (k none) (fun i => k' i none) m)
    (hsome : ∀ t, k (some t) = x >>= fun _ => throw ⟨.assignmentTarget, t⟩)
    (hsome' : ∀ i t, k' i (some t) = x' i >>= fun _ => throw ⟨.assignmentTarget, t⟩)
    (make : Token → α → β) :
    Reads loose (acceptKind .equals >>= k) (fun i => acceptKind .equals >>= k' i)
      (m.or (.after (· == .equals) fun t ts b => loose ∧ ∃ a, l ts a ∧ b = make t a)) where
  possible := hnone.possible.mono fun _ _ => .inl
  keeps := .accept_bind rfl hnone.keeps fun t _ => hsome t ▸ hx.keeps.bind fun _ => .throw _
  keeps' i := .accept_bind rfl (hnone.keeps' i) fun t _ =>
    hsome' i t ▸ (hx.keeps' i).bind fun _ => .throw _
  clean {s u b} h hu := by
    obtain hs | ⟨t, rest, hs, ht⟩ := accepts_or_not (· == .equals) rfl s.ahead
    · obtain ⟨hdepth, ts, hts, hm, hmakes⟩ := instead_clean hs hnone h hu
      exact ⟨hdepth, ts, hts, .inl hm, hmakes⟩
    · rw [acceptKind, accept_bind_some hs ht, hsome] at h
      obtain ⟨a, t, -, hthrow⟩ := bind_eq_ok.1 h
      cases hthrow
  fault {s f} h hdeep := by
    obtain hs | ⟨t, rest, hs, ht⟩ := accepts_or_not (· == .equals) rfl s.ahead
    · obtain ⟨ts, rest, hafter, hcomplete, hrefuses⟩ := instead_fault hs hnone h hdeep
      exact ⟨ts, rest, hafter, fun hloose => (hcomplete hloose).mono fun _ _ => .inl, hrefuses⟩
    · have hbegins {us : List Token} (hloose : loose) (h : l.Begins us) :
          (m.or (.after (· == .equals) fun t ts b => loose ∧ ∃ a, l ts a ∧ b = make t a)).Begins
            (t :: us) := by
        obtain ⟨vs, a, ha⟩ := h
        exact ⟨vs, make t a, .inr ⟨t, us ++ vs, rfl, ht, hloose, a, ha, rfl⟩⟩
      unfold FirstFault at h
      rw [acceptKind, accept_bind_some hs ht, hsome] at h
      have h : FirstFault (x >>= fun _ => throw ⟨.assignmentTarget, t⟩)
        { s with ahead := rest } f := h
      obtain h | ⟨a, u, -, -, h⟩ := h.of_bind hx.keeps fun _ => .throw _
      · obtain ⟨ts, rest', hafter, hcomplete, hrefuses⟩ := hx.fault h hdeep
        refine ⟨t :: ts, rest', hafter.cons hs,
          fun hloose => hbegins hloose (hcomplete hloose), fun i s' v hs' hv hk => ?_⟩
        unfold Faulty
        rw [acceptKind, accept_bind_some hv ht, hsome']
        exact (hrefuses i { s' with ahead := ts ++ v } v hs' rfl hk).bind (hx.keeps' i)
          fun _ => .throw _
      · -- The value has been read by now, and what is said to be wrong is the sign before it.
        obtain rfl := firstFault_throw_iff.1 h
        refine ⟨[], s.ahead, ⟨rfl, by rw [hs]; rfl, fun _ => by simpa using ht⟩,
          fun hloose => Language.Begins.nil (hbegins hloose hx.possible),
          fun i s' v _ hv hk => ?_⟩
        have hnext : (nextKind s'.ahead == .equals) = true := by simpa [hv, hk, hs] using ht
        obtain h | ⟨t', rest', hv', ht'⟩ := accepts_or_not (· == .equals) rfl s'.ahead
        · exact absurd hnext (by rw [h]; exact Bool.false_ne_true)
        · unfold Faulty
          rw [acceptKind, accept_bind_some hv' ht', hsome']
          -- Another value may stand after the sign, in which there may be another fault.
          by_cases hx'' : Faulty (x' i) { s' with ahead := rest' }
          · exact hx''.bind (hx.keeps' i) fun _ => .throw _
          · obtain ⟨a', u', hau', hu'⟩ := (hx.keeps' i).exists_ok hx''
            exact Faulty.bind_of_ok hau' hu' faulty_throw

end Tokens

theorem demand (e : Expectation) : Reads loose (Rule.demand e : Rule g Token)
    (fun i => (Rule.demand e : Rule (g' i) Token)) fun ts t => ts = [t] ∧ t.kind = e.kind := by
  have hp : (TokenKind.endOfFile == e.kind) = false := by cases e <;> rfl
  unfold Rule.demand acceptKind
  refine mono (expect (c := .missing e) hp nofun e.kind (beq_self_eq_true e.kind) rfl (fun _ => rfl)
    fun t _ => pure t) ?_
  rintro ts a ⟨t, us, rfl, ht, rfl, rfl⟩
  exact ⟨rfl, by simpa using ht⟩

/-- A look at the kind of the next token tells which of two languages is read. -/
theorem peek {look : Rule g Bool} {look' : ∀ i, Rule (g' i) Bool} {q : TokenKind → Bool}
    (hlook : ∀ s, look s = .ok (q (nextKind s.ahead)) s)
    (hlook' : ∀ i s, look' i s = .ok (q (nextKind s.ahead)) s)
    {f : Bool → Rule g β} {f' : ∀ i, Bool → Rule (g' i) β} {m : Bool → Language β}
    (hf : ∀ b, Reads loose (f b) (fun i => f' i b) (m b)) :
    Reads loose (look >>= f) (fun i => look' i >>= f' i) fun ts b => ∃ c, m c ts b where
  possible := (hf true).possible.mono fun _ _ hb => ⟨true, hb⟩
  keeps s := by
    rw [bind_of_ok (hlook s)]
    exact (hf _).keeps s
  keeps' i s := by
    rw [bind_of_ok (hlook' i s)]
    exact (hf _).keeps' i s
  clean {s u b} h hu := by
    rw [bind_of_ok (hlook s)] at h
    obtain ⟨hdepth, ts, hts, hm, hmakes⟩ := (hf _).clean h hu
    refine ⟨hdepth, ts, hts, ⟨_, hm⟩, fun i s' v hs' hv hk => ?_⟩
    rw [bind_of_ok (hlook' i s'), hv, nextKind_append_congr hk, ← hts]
    exact hmakes i s' v hs' hv hk
  fault {s e} h hdeep := by
    unfold FirstFault at h
    rw [bind_of_ok (hlook s)] at h
    obtain ⟨ts, rest, hafter, hcomplete, hrefuses⟩ := (hf _).fault h hdeep
    refine ⟨ts, rest, hafter, fun hloose => (hcomplete hloose).mono fun _ _ hb => ⟨_, hb⟩,
      fun i s' v hs' hv hk => ?_⟩
    unfold Faulty
    rw [bind_of_ok (hlook' i s'), hv, nextKind_append_congr hk, ← hafter.ahead]
    exact hrefuses i s' v hs' hv hk

/-- A level that the first rule can enter, the others can enter too. -/
theorem within (hlevels : ∀ i, g.levels ≤ (g' i).levels) (h : Reads loose r r' l) :
    Reads loose (Rule.within r) (fun i => Rule.within (r' i)) l where
  possible := h.possible
  keeps := h.keeps.within
  keeps' i := (h.keeps' i).within
  clean {s t a} hr ht := by
    unfold Rule.within at hr
    split at hr
    · rename_i hs
      split at hr <;> cases hr
      rename_i u hru
      obtain ⟨hdepth, ts, hts, hl, hmakes⟩ := h.clean hru ht
      refine ⟨by simp [State.leave, hdepth, State.enter], ts, hts, hl, fun i s' v hs' hv hk => ?_⟩
      have hi := hlevels i
      have hs'' : s'.depth < (g' i).levels := by omega
      have hm := hmakes i (s'.enter hs'') v (by simp [State.enter, hs']) hv hk
      unfold Rule.within
      rw [dif_pos hs'', hm]
      rfl
    · cases hr
  fault {s f} hf hdeep := by
    unfold FirstFault Rule.within at hf
    split at hf
    · rename_i hs
      have hfirst : FirstFault r (s.enter hs) f := by
        unfold FirstFault
        split at hf <;> rename_i hr <;> rw [hr] <;> exact hf
      obtain ⟨ts, rest, hafter, hcomplete, hrefuses⟩ := h.fault hfirst hdeep
      refine ⟨ts, rest, ⟨hafter.ahead, hafter.token, hafter.equals⟩, hcomplete,
        fun i s' v hs' hv hk => ?_⟩
      have hi := hlevels i
      have hs'' : s'.depth < (g' i).levels := by omega
      have hfaulty := hrefuses i (s'.enter hs'') v (by simp [State.enter, hs']) hv hk
      unfold Faulty Rule.within
      rw [dif_pos hs'']
      unfold Faulty at hfaulty
      split <;> rename_i hr <;> rw [hr] at hfaulty <;> exact hfaulty
    · -- No level is left, and the fault is the one that is left out.
      have heq : f = ⟨.tooDeep g.limit, s.next⟩ := by simpa [Rule.fail, faultsOf] using hf
      exact absurd ⟨g.limit, by rw [heq]⟩ hdeep

theorem recovering (h : Reads loose r r' l) :
    Reads loose (Rule.recovering r) (fun i => Rule.recovering (r' i))
      fun ts o => ∃ a, o = some a ∧ l ts a where
  possible := by
    obtain ⟨ts, a, ha⟩ := h.possible
    exact ⟨ts, some a, a, rfl, ha⟩
  keeps := h.keeps.recovering
  keeps' i := (h.keeps' i).recovering
  clean {s t o} hr ht := by
    have hkeeps := h.keeps s
    unfold Rule.recovering at hr
    split at hr <;> cases hr
    · rename_i a hra
      obtain ⟨hdepth, ts, hts, hl, hmakes⟩ := h.clean hra ht
      refine ⟨hdepth, ts, hts, ⟨a, rfl, hl⟩, fun i s' v hs' hv hk => ?_⟩
      unfold Rule.recovering
      rw [hmakes i s' v hs' hv hk]
    · -- A fault that was recovered from would be among those recorded.
      rename_i f u hru
      rw [hru, ← ht] at hkeeps
      exact absurd hkeeps not_firstFault_self
  fault {s f} hf hdeep := by
    unfold FirstFault at hf
    rw [faultsOf_recovering] at hf
    obtain ⟨ts, rest, hafter, hcomplete, hrefuses⟩ := h.fault hf hdeep
    refine ⟨ts, rest, hafter, fun hloose => ?_, fun i s' v hs' hv hk => ?_⟩
    · obtain ⟨us, a, ha⟩ := hcomplete hloose
      exact ⟨us, some a, a, rfl, ha⟩
    · unfold Faulty
      rw [faultsOf_recovering]
      exact hrefuses i s' v hs' hv hk

end Reads

end Rule

end ScrapeScript
