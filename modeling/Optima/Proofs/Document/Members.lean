import Optima.Proofs.Document.Field

namespace Optima

abbrev Json.Members := List (Option String × Json)

open Json (Members)

namespace Field

variable {κ : Type} {f g : Field κ} {fields l : List (Field κ)}
  {members : Members}

def Commutes (f g : Field κ) : Prop :=
  ∀ c i j, (f.replace c i).bind (g.replace · j) = (g.replace c j).bind (f.replace · i)

def Uniform (f : Field κ) : Prop :=
  ∀ c d j, (f.replace c j).isSome = (f.replace d j).isSome

section

variable {β γ : Type} {key key' : String} {rd : Json → Option β} {rd' : Json → Option γ}
  {wr : β → Json} {wr' : γ → Json} {get : κ → β} {get' : κ → γ} {set : κ → β → κ}
  {set' : κ → γ → κ}

@[simp] theorem of_commutes (h : ∀ c a b, set' (set c a) b = set (set' c b) a) :
    (Field.of key rd wr get set).Commutes (.of key' rd' wr' get' set') := by
  intro c i j
  change ((rd i).map (set c)).bind (fun d => (rd' j).map (set' d)) =
    ((rd' j).map (set' c)).bind (fun d => (rd i).map (set d))
  cases rd i <;> cases rd' j <;> simp [h]

@[simp] theorem of_uniform : (Field.of key rd wr get set).Uniform := by
  intro c d j
  simp [Field.of]

end

def fill (members : Members) (c : κ) (f : Field κ) : Option κ :=
  (members.lookup (some f.key)).elim (some c) (f.replace c)

theorem foldlM_fill_nil (c : κ) : l.foldlM (fill []) c = some c := by
  induction l with
  | nil => rfl
  | cons f l ih => exact ih

theorem fill_congr {members' : Members}
    (h : members.lookup (some f.key) = members'.lookup (some f.key)) (c : κ) :
    fill members c f = fill members' c f := by
  rw [fill, fill, h]

theorem foldlM_fill_congr {members' : Members}
    (h : ∀ f ∈ l, members.lookup (some f.key) = members'.lookup (some f.key)) (c : κ) :
    l.foldlM (fill members) c = l.foldlM (fill members') c := by
  induction l generalizing c with
  | nil => rfl
  | cons f l ih =>
    rw [List.forall_mem_cons] at h
    rw [List.foldlM_cons, List.foldlM_cons, fill_congr h.1]
    exact congrArg _ (funext fun d => ih h.2 d)

theorem fill_replace (h : g.Commutes f) (c : κ) (j : Json) :
    (fill members c g).bind (f.replace · j) = (f.replace c j).bind (fill members · g) := by
  unfold fill
  cases members.lookup (some g.key) with
  | none => exact (Option.bind_fun_some _).symm
  | some i => exact h c i j

theorem foldlM_fill_replace (h : ∀ g ∈ l, g.Commutes f) (c : κ) (j : Json) :
    (l.foldlM (fill members) c).bind (f.replace · j) =
      (f.replace c j).bind (l.foldlM (fill members)) := by
  induction l generalizing c with
  | nil => exact (Option.bind_fun_some _).symm
  | cons g l ih =>
    rw [List.forall_mem_cons] at h
    calc ((g :: l).foldlM (fill members) c).bind (f.replace · j)
      _ = (fill members c g).bind fun d => (l.foldlM (fill members) d).bind (f.replace · j) :=
        Option.bind_assoc _ _ _
      _ = (fill members c g).bind fun d => (f.replace d j).bind (l.foldlM (fill members)) :=
        congrArg _ (funext fun d => ih h.2 d)
      _ = ((fill members c g).bind (f.replace · j)).bind (l.foldlM (fill members)) :=
        (Option.bind_assoc _ _ _).symm
      _ = ((f.replace c j).bind (fill members · g)).bind (l.foldlM (fill members)) := by
        rw [fill_replace h.1]
      _ = (f.replace c j).bind ((g :: l).foldlM (fill members)) := Option.bind_assoc _ _ _

theorem lookup_eq_none {key : Option String} (h : members.countP (fun m => m.1 == key) = 0) :
    members.lookup key = none := by
  refine List.lookup_eq_none_iff.2 fun m hm => bne_iff_ne.2 (Ne.symm ?_)
  simpa using List.countP_eq_zero.1 h m hm

theorem lookup_cons_of_ne {key key' : String} (h : key ≠ key') (j : Json) :
    List.lookup (some key) ((some key', j) :: members) = members.lookup (some key) := by
  rw [List.lookup_cons, beq_eq_false_iff_ne.2 (by simpa using h)]

theorem foldlM_fill_cons (hkeys : (fields.map key).Nodup) (hcommute : fields.Pairwise Commutes)
    (hf : f ∈ fields) (hnone : members.lookup (some f.key) = none) (c : κ) (j : Json) :
    fields.foldlM (fill ((some f.key, j) :: members)) c =
      (f.replace c j).bind (fields.foldlM (fill members)) := by
  obtain ⟨l, r, rfl⟩ := List.append_of_mem hf
  have hcommute (g) (hg : g ∈ l) : g.Commutes f :=
    (List.pairwise_append.1 hcommute).2.2 g hg f List.mem_cons_self
  obtain ⟨hl, hr⟩ : (∀ g ∈ l, g.key ≠ f.key) ∧ ∀ g ∈ r, g.key ≠ f.key := by
    rw [List.map_append, List.map_cons, List.nodup_middle, List.nodup_cons] at hkeys
    simpa [or_imp, forall_and] using hkeys.1
  have hrest (d : κ) : (f :: r).foldlM (fill members) d = r.foldlM (fill members) d := by
    rw [List.foldlM_cons, fill, hnone]
    rfl
  have hfirst (d : κ) : (f :: r).foldlM (fill ((some f.key, j) :: members)) d =
      (f.replace d j).bind (r.foldlM (fill members)) := by
    rw [List.foldlM_cons, fill, List.lookup_cons_self]
    exact congrArg _ (funext fun e =>
      foldlM_fill_congr (fun g hg => lookup_cons_of_ne (hr g hg) j) e)
  calc (l ++ f :: r).foldlM (fill ((some f.key, j) :: members)) c
    _ = (l.foldlM (fill members) c).bind fun d =>
          (f.replace d j).bind (r.foldlM (fill members)) := by
      rw [List.foldlM_append, foldlM_fill_congr fun g hg => lookup_cons_of_ne (hl g hg) j]
      exact congrArg _ (funext hfirst)
    _ = ((f.replace c j).bind (l.foldlM (fill members))).bind (r.foldlM (fill members)) := by
      rw [← foldlM_fill_replace hcommute, Option.bind_assoc]
    _ = (f.replace c j).bind ((l ++ f :: r).foldlM (fill members)) := by
      rw [Option.bind_assoc]
      refine congrArg _ (funext fun d => ?_)
      rw [List.foldlM_append]
      exact congrArg _ (funext fun e => (hrest e).symm)

theorem foldlM_readMember (hkeys : (fields.map key).Nodup) (hcommute : fields.Pairwise Commutes)
    (htexts : ∀ m ∈ members, m.1.isSome)
    (honce : ∀ f ∈ fields, members.countP (fun m => m.1 == some f.key) ≤ 1) (c : κ) :
    members.foldlM (readMember fields) c = fields.foldlM (fill members) c := by
  induction members generalizing c with
  | nil => exact (foldlM_fill_nil c).symm
  | cons m members ih =>
    obtain ⟨key, j⟩ := m
    rw [List.forall_mem_cons] at htexts
    obtain ⟨key, rfl⟩ := Option.isSome_iff_exists.1 htexts.1
    have ih := ih htexts.2 fun f hf =>
      (Nat.le_add_right _ _).trans (List.countP_cons.symm.le.trans (honce f hf))
    rw [List.foldlM_cons, readMember]
    cases hfind : fields.find? fun f => f.key == key with
    | none =>
      have hunknown (f) (hf : f ∈ fields) : f.key ≠ key := by
        simpa using List.find?_eq_none.1 hfind f hf
      rw [foldlM_fill_congr fun f hf => lookup_cons_of_ne (hunknown f hf) j]
      exact ih c
    | some f =>
      obtain rfl : f.key = key := by simpa using List.find?_some hfind
      have hf := List.mem_of_find?_eq_some hfind
      rw [foldlM_fill_cons hkeys hcommute hf (lookup_eq_none (by simpa using honce f hf))]
      exact congrArg _ (funext ih)

theorem isSome_of_foldlM {c d : κ} (h : members.foldlM (readMember fields) c = some d) :
    ∀ m ∈ members, m.1.isSome := by
  induction members generalizing c with
  | nil => exact nofun
  | cons m members ih =>
    obtain ⟨key, j⟩ := m
    rw [List.foldlM_cons] at h
    cases key with
    | none =>
      rw [readMember] at h
      cases h
    | some key =>
      obtain ⟨e, -, h⟩ := Option.bind_eq_some_iff.1 h
      exact List.forall_mem_cons.2 ⟨rfl, ih h⟩

theorem foldlM_fill_isSome {a : κ} (huniform : ∀ f ∈ l, f.Uniform)
    (h : ∀ f ∈ l, ∀ j ∈ members.lookup (some f.key), (f.replace a j).isSome) (c : κ) :
    (l.foldlM (fill members) c).isSome := by
  induction l generalizing c with
  | nil => rfl
  | cons f l ih =>
    rw [List.forall_mem_cons] at huniform h
    have hfill : (fill members c f).isSome := by
      unfold fill
      cases hj : members.lookup (some f.key) with
      | none => rfl
      | some j => exact (huniform.1 c a j).trans (h.1 j hj)
    obtain ⟨d, hd⟩ := Option.isSome_iff_exists.1 hfill
    rw [List.foldlM_cons, hd]
    exact ih huniform.2 h.2 d

end Field

namespace Document

class Independent (κ : Type) [Document κ] : Prop where
  commutes : (fields : List (Field κ)).Pairwise Field.Commutes
  uniform : ∀ f ∈ (fields : List (Field κ)), f.Uniform

/-- The keys of an object are texts, and the key of a field does not repeat. -/
structure Unambiguous (κ : Type) [Document κ] (members : Members) : Prop where
  texts : ∀ m ∈ members, m.1.isSome
  once : ∀ f ∈ (fields : List (Field κ)), members.countP (fun m => m.1 == some f.key) ≤ 1

def Means {β : Type} (read : Json → Option β) (j : Json) (b : β) : Prop := read j = some b

/-- What stands under a key; where nothing does, the default. -/
def Supplied {β : Type} (members : Members) (key : String) (means : Json → β → Prop)
    (default b : β) : Prop :=
  (members.lookup (some key)).elim (b = default) (means · b)

def Given {κ β : Type} [Document κ] (members : Members) (key : String) (means : Json → β → Prop)
    (get : κ → β) (c : κ) : Prop :=
  Supplied members key means (get standard) (get c)

theorem foldlM_fill_of_cons {κ β : Type} {members : Members} {key : String}
    {rd : Json → Option β} {wr : β → Json} {get : κ → β} {set : κ → β → κ} {l : List (Field κ)}
    {a c : κ} (hset : ∀ a, set a (get a) = a) :
    (Field.of key rd wr get set :: l).foldlM (Field.fill members) a = some c ↔
      ∃ b, Supplied members key (Means rd) (get a) b ∧
        l.foldlM (Field.fill members) (set a b) = some c := by
  rw [List.foldlM_cons]
  unfold Field.fill Supplied
  dsimp only [Field.of]
  cases members.lookup (some key) with
  | none => simp [hset]
  | some j => cases hj : rd j <;> simp [Means, hj]

section

variable {κ : Type} [Document κ] {members : Members} {given : Members → κ → Prop}

def Filled (members : Members) (c : κ) : Prop :=
  (fields : List (Field κ)).foldlM (Field.fill members) standard = some c

/-- What a document means when `given` tells what the members of an object mean. -/
def Denotes (given : Members → κ → Prop) : Json → κ → Prop
  | .object members, c => Unambiguous κ members ∧ given members c
  | j, c => read j = some c

theorem unambiguous_of_read {c : κ} (h : read (.object members) = some c) :
    Unambiguous κ members := by
  change (if Field.repeats fields members then none else _) = _ at h
  split at h
  · cases h
  · next hrepeats =>
    refine ⟨Field.isSome_of_foldlM h, fun f hf => ?_⟩
    have hf := List.any_eq_false.1 (Bool.eq_false_iff.2 hrepeats) f hf
    simpa using hf

theorem read_object [Keyed κ] [Independent κ] (h : Unambiguous κ members) :
    read (.object members) =
      (fields : List (Field κ)).foldlM (Field.fill members) standard := by
  have hrepeats : Field.repeats (fields : List (Field κ)) members = false := by
    simpa [Field.repeats] using h.once
  change (if Field.repeats fields members then none else _) = _
  rw [hrepeats, if_neg Bool.false_ne_true]
  exact Field.foldlM_readMember Keyed.nodup Independent.commutes h.texts h.once standard

variable [Keyed κ] [Independent κ]

theorem read_object_eq_some (hgiven : ∀ c, Filled members c ↔ given members c) (c : κ) :
    read (.object members) = some c ↔ Unambiguous κ members ∧ given members c := by
  constructor
  · intro h
    have hunambiguous := unambiguous_of_read h
    exact ⟨hunambiguous, (hgiven c).1 ((read_object hunambiguous).symm.trans h)⟩
  · rintro ⟨hunambiguous, h⟩
    exact (read_object hunambiguous).trans ((hgiven c).2 h)

theorem means_read (hgiven : ∀ members c, Filled members c ↔ given members c) :
    Means read = Denotes given := by
  funext j c
  cases j with
  | object members => exact propext (read_object_eq_some (hgiven members) c)
  | null | bool _ | number _ | text _ | array _ => rfl

end

/-- How the text of an object is read when `given` tells what its members mean. -/
structure Resolved (κ : Type) [Document κ] (given : Members → κ → Prop)
    (text : String) (members : Members) : Prop where
  value (c : κ) :
    parse (α := Float) text = .ok c ↔ Unambiguous κ members ∧ given members c
  succeeds (h : Unambiguous κ members)
    (hvalid : ∀ f ∈ (fields : List (Field κ)), ∀ j ∈ members.lookup (some f.key),
      (f.replace standard j).isSome) : ∃ c : κ, parse (α := Float) text = .ok c
  repeated : ∀ f ∈ (fields : List (Field κ)),
    1 < members.countP (fun m => m.1 == some f.key) →
      (parse text : Except (Error Float) κ) = .error .unreadable

theorem resolved {κ : Type} [Document κ] [Keyed κ] [Independent κ]
    {given : Members → κ → Prop} {text : String} {members : Members}
    (hgiven : ∀ c, Filled members c ↔ given members c)
    (h : Json.parse? text = some (.object members)) :
    Resolved κ given text members := by
  have hparse : (parse text : Except (Error Float) κ) =
      (read (.object members)).elim (.error .unreadable) .ok := by
    rw [parse, h, Option.bind_some]
    cases (read (.object members) : Option κ) <;> rfl
  have hvalue (c : κ) : (parse text : Except (Error Float) κ) = .ok c ↔
      read (.object members) = some c := by
    rw [hparse]
    cases (read (.object members) : Option κ) <;> simp
  refine ⟨fun c => (hvalue c).trans (read_object_eq_some hgiven c), ?_, ?_⟩
  · intro hunambiguous hvalid
    obtain ⟨c, hc⟩ := Option.isSome_iff_exists.1
      (Field.foldlM_fill_isSome Independent.uniform hvalid standard)
    exact ⟨c, (hvalue c).2 ((read_object hunambiguous).trans hc)⟩
  · intro f hf hrepeats
    cases hread : (read (.object members) : Option κ) with
    | none => rw [hparse, hread, Option.elim_none]
    | some c => exact absurd ((unambiguous_of_read hread).once f hf) (not_le.2 hrepeats)

end Document

end Optima
