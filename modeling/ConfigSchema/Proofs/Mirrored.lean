import ConfigSchema.Proofs.Seen
/-!
# Mirrored — in place, a walk does what it says

The walk of a value says what is left of it, what is found and noted, and how it ends.  Validating the value in place, with
validators that decide by what they are asked about, writes down just that (`Tells`), and what can be seen of the value
afterwards is what the walk leaves (`mirrored_validate`).  What was seen of one part stays, since no work elsewhere
touches it.
-/
namespace ConfigSchema

namespace Trail

/-- The validators are asked alike whether a clean trail went before or not. -/
theorem Clean.andIfClean_andThen {d : Trail} (hd : d.Clean) (t u : Trail) :
    (d.andThen t).andIfClean u = d.andThen (t.andIfClean u) := by
  have hv : (d.andThen t).violations = t.violations := by
    rw [violations_andThen hd.halt, hd.violations, List.nil_append]
  by_cases h : t.violations = []
  · rw [andIfClean_of_nil (hv.trans h), andIfClean_of_nil h, andThen_assoc]
  · rw [andIfClean_of_ne_nil (hv.symm ▸ h), andIfClean_of_ne_nil h]

end Trail

/-- Validators that decide by what they are asked about. -/
def Setting.oracle (s : Setting) : InPlace.Oracle := fun _ => s.judge

namespace InPlace

open scoped List

variable {α β : Type}

/-! ## What work writes down -/

/-- Why a piece of work does not go on, if it does not. -/
def stop? (x : Work α) (m : Machine) : Option Stop :=
  match x.run m with
  | .ok _ _ => none
  | .error stop _ => some stop

/-- Work at a place that writes down what a trail tells of and notes, and ends as the trail does. -/
structure Tells (place : Place) (t : Trail) (x : Work α) (m : Machine) : Prop where
  stop : stop? x m = t.halt.map .ended
  ledger : (after x m).ledger = m.ledger.add place t
  told : (after x m).told = m.told ++ t.events

namespace Tells

variable {place : Place} {x : Work α} {f : α → Work β} {m : Machine} {t u : Trail}

theorem of_ok {a : α} {m' : Machine} (h : x.run m = .ok a m') (ht : t.halt = none) (hl : m'.ledger = m.ledger.add place t)
    (he : m'.told = m.told ++ t.events) : Tells place t x m where
  stop := by rw [stop?, h, ht]; rfl
  ledger := by rw [after_of_ok h, hl]
  told := by rw [after_of_ok h, he]

theorem of_pure (a : α) : Tells place .empty (pure a : Work α) m :=
  of_ok rfl rfl (Ledger.add_empty ..).symm (List.append_nil _).symm

theorem halt_of_ok {a : α} {m' : Machine} (h : Tells place t x m) (hx : x.run m = .ok a m') : t.halt = none := by
  have hs := h.stop
  rw [stop?, hx] at hs
  exact Option.map_eq_none_iff.1 hs.symm

theorem halt_of_error {stop : Stop} {m' : Machine} (h : Tells place t x m) (hx : x.run m = .error stop m') :
    ∃ halt, t.halt = some halt ∧ stop = .ended halt := by
  have hs := h.stop
  rw [stop?, hx] at hs
  obtain ⟨halt, hh, he⟩ := Option.map_eq_some_iff.1 hs.symm
  exact ⟨halt, hh, he.symm⟩

theorem congr {y : Work α} {m' : Machine} (h : x.run m = y.run m') (hs : m'.ledger = m.ledger) (ht : m'.told = m.told)
    (hy : Tells place t y m') : Tells place t x m where
  stop := by rw [stop?, h]; exact hy.stop
  ledger := by rw [after_congr h, hy.ledger, hs]
  told := by rw [after_congr h, hy.told, ht]

/-- **Work after work writes down the joined trails.** -/
theorem bind (hx : Tells place t x m) (hf : ∀ a m', x.run m = .ok a m' → Tells place u (f a) m') :
    Tells place (t.andThen u) (x >>= f) m := by
  cases h : x.run m with
  | ok a m' =>
    have hhalt := hx.halt_of_ok h
    have hrest := hf a m' h
    have hbind : (x >>= f).run m = (f a).run m' := bind_of_ok h
    refine ⟨?_, ?_, ?_⟩
    · rw [stop?, hbind, Trail.andThen_of_none hhalt]
      exact hrest.stop
    · rw [after_bind_of_ok h, hrest.ledger, Ledger.add_andThen _ _ hhalt, ← hx.ledger, after_of_ok h]
    · rw [after_bind_of_ok h, hrest.told, Trail.andThen_of_none hhalt, ← List.append_assoc, ← hx.told, after_of_ok h]
  | error stop m' =>
    obtain ⟨halt, hhalt, rfl⟩ := hx.halt_of_error h
    have hbind : (x >>= f).run m = .error (.ended halt) m' := bind_of_error h
    rw [Trail.andThen_of_some hhalt]
    refine ⟨?_, ?_, ?_⟩
    · rw [stop?, hbind, hhalt]
      rfl
    · rw [after_bind_of_error h, ← hx.ledger, after_of_error h]
    · rw [after_bind_of_error h, ← hx.told, after_of_error h]

theorem under {step : Step} (h : Tells (place ++ [step]) t x m) : Tells place (t.under step) x m where
  stop := h.stop
  ledger := by rw [h.ledger, Ledger.add_under]
  told := h.told

theorem forM {ι : Type} {trail : ι → Trail} {work : ι → Work Unit} (h : ∀ a m, Tells place (trail a) (work a) m) :
    ∀ (items : List ι) (m : Machine), Tells place (.sequence (items.map trail)) (items.forM work) m
  | [], _ => of_pure ()
  | a :: items, m => (h a m).bind fun _ m' _ => forM h items m'

end Tells

variable {s : Setting} {place : Place}

theorem tells_tell {event : Event} (h : event.violation? = none) (m : Machine) :
    Tells place (.event event) (tell event) m := by
  refine .of_ok (a := ()) rfl rfl ?_ rfl
  simp [Ledger.add, Trail.event, Trail.violations, Event.violations, h]

theorem tells_find (path : Pointer) (cause : Cause) (m : Machine) :
    Tells place (s.found path cause) (find s.options path cause) m := by
  have hledger : m.ledger.found path cause = m.ledger.add place (s.found path cause) := (Ledger.add_found ..).symm
  cases hs : s.options.stopOnFirst with
  | true =>
    have hrun := find_of_stops hs path cause m
    refine ⟨?_, (congrArg (·.ledger) (after_of_error hrun)).trans hledger, congrArg (·.told) (after_of_error hrun)⟩
    rw [stop?, hrun, Setting.found, hs]
    rfl
  | false =>
    refine .of_ok (find_of_goes_on hs path cause m) ?_ hledger rfl
    simp [Setting.found, hs]

theorem tells_ask (path : Pointer) (e : Element) (v : Value) (w : Validator) (m : Machine) :
    Tells place (s.ask path e v w) (ask s.options s.oracle path e v w) m := by
  have hheed : ∀ verdict m, Tells place (s.heed path w verdict) (heed s.options path w verdict) m := fun verdict m => by
    cases verdict with
    | accept => exact .of_pure ()
    | reject => exact tells_find path _ m
    | fail f =>
      have hempty : m.ledger = m.ledger.add place (s.heed path w (.fail f)) := (Ledger.add_empty m.ledger place).symm
      exact ⟨rfl, hempty, (List.append_nil _).symm⟩
  exact (tells_tell rfl m).bind fun _ m' _ => hheed _ m'

/-- What comes after some work leaves the keys as they are, if it deletes none. -/
theorem memory_bind {x : Work α} {f : α → Work β} {m : Machine} (hf : ∀ a m', (after (f a) m').memory = m'.memory) :
    (after (x >>= f) m).memory = (after x m).memory := by
  cases h : x.run m with
  | ok a m' => rw [after_bind_of_ok h, after_of_ok h, hf]
  | error stop m' => rw [after_bind_of_error h, after_of_error h]

/-! ## Work that does what a walk does -/

/-- Work at a place that writes down what a walk tells of, and leaves what the walk leaves, as far as one `looks`. -/
structure Mirrored (place : Place) (looks : Memory → α) (w : Walk α) (x : Work Unit) (m : Machine) : Prop where
  tells : Tells place w.trail x m
  left : looks (after x m).memory = w.left

namespace Mirrored

variable {looks : Memory → α} {w : Walk α} {x y : Work Unit} {m m' : Machine} {t : Trail}

theorem of_pure {a : α} (h : looks m.memory = a) : Mirrored place looks ⟨a, .empty⟩ (pure ()) m := ⟨.of_pure (), h⟩

theorem congr (h : x.run m = y.run m') (hs : m'.ledger = m.ledger) (ht : m'.told = m.told)
    (hy : Mirrored place looks w y m') : Mirrored place looks w x m :=
  ⟨.congr h hs ht hy.tells, (after_congr h).symm ▸ hy.left⟩

/-- **A walk after a trail.**  If the first work ends the run, what it leaves is what the walk has not come to. -/
theorem after {untouched : α} (hx : Tells place t x m)
    (hu : ∀ halt, t.halt = some halt → looks (after x m).memory = untouched)
    (hy : ∀ m', x.run m = .ok () m' → Mirrored place looks w y m') :
    Mirrored place looks (w.after t untouched) (do x; y) m := by
  refine ⟨?_, ?_⟩
  · rw [Walk.trail_after]
    exact hx.bind fun _ m' hok => (hy m' hok).tells
  · cases h : x.run m with
    | ok _ m' => rw [after_bind_of_ok h, Walk.left_after (hx.halt_of_ok h), (hy m' h).left]
    | error stop m' =>
      obtain ⟨halt, hhalt, -⟩ := hx.halt_of_error h
      rw [after_bind_of_error h, ← after_of_error h, hu halt hhalt]
      simp only [Walk.after, hhalt]

/-- **A walk of a first part and of the others.**  The work on the others leaves what was seen of the first part. -/
theorem cons {first : Memory → α} {others : Memory → List α} {untouched : List α} {head : Walk α} {tail : Walk (List α)}
    (hx : Mirrored place first head x m)
    (hu : ∀ halt, head.trail.halt = some halt → others (InPlace.after x m).memory = untouched)
    (hy : ∀ m', x.run m = .ok () m' → Mirrored place others tail y m')
    (hfirst : ∀ m', x.run m = .ok () m' → first (InPlace.after y m').memory = first m'.memory) :
    Mirrored place (fun memory => first memory :: others memory) (head.cons untouched tail) (do x; y) m := by
  refine ⟨?_, ?_⟩
  · rw [Walk.trail_cons]
    exact hx.tells.bind fun _ m' hok => (hy m' hok).tells
  · cases h : x.run m with
    | ok _ m' =>
      rw [after_bind_of_ok h, Walk.left_cons (hx.tells.halt_of_ok h), (hy m' h).left, hfirst m' h, ← hx.left,
        after_of_ok h]
    | error stop m' =>
      obtain ⟨halt, hhalt, -⟩ := hx.tells.halt_of_error h
      rw [after_bind_of_error h, ← after_of_error h, hx.left, hu halt hhalt]
      simp only [Walk.cons, hhalt]

/-- Work that deletes nothing changes nothing of what is seen. -/
theorem then_quiet (h : Mirrored place looks w x m) (hy : ∀ m, Tells place t y m)
    (hm : ∀ m, (InPlace.after y m).memory = m.memory) :
    Mirrored place looks ⟨w.left, w.trail.andThen t⟩ (do x; y) m :=
  ⟨h.tells.bind fun _ m' _ => hy m', (congrArg looks (memory_bind fun _ => hm)).trans h.left⟩

/-- **The length of the list of violations says whether the work told of any**, and the validators see what is left. -/
theorem thenAsk {v : Value} {w : Walk Value} (h : Mirrored place (·.view place v) w x m) (path : Pointer) (e : Element) :
    Mirrored place (·.view place v) ⟨w.left, w.trail.andIfClean (s.askAll path e w.left)⟩
      (thenAsk s.options s.oracle place path e v x) m := by
  have hjoin : w.trail.andIfClean (s.askAll path e w.left) =
      w.trail.andThen (if w.trail.violations = [] then s.askAll path e w.left else .empty) := by
    by_cases hv : w.trail.violations = []
    · rw [Trail.andIfClean_of_nil hv, if_pos hv]
    · rw [Trail.andIfClean_of_ne_nil hv, if_neg hv, Trail.andThen_empty]
  have hopen : (InPlace.thenAsk s.options s.oracle place path e v x).run m = (do
      x
      askSince s.options s.oracle m.ledger.violations.length place path e v : Work Unit).run m := rfl
  rw [hjoin]
  refine .congr hopen rfl rfl ⟨h.tells.bind fun _ m' hm' => ?_, ?_⟩
  · have hafter : InPlace.after x m = m' := after_of_ok hm'
    have hlength : m'.ledger.violations.length = m.ledger.violations.length ↔ w.trail.violations = [] := by
      rw [← hafter, h.tells.ledger, Ledger.add, List.length_append, Nat.add_eq_left, List.length_eq_zero_iff]
    have hask : (askSince s.options s.oracle m.ledger.violations.length place path e v).run m' =
        (if m'.ledger.violations.length = m.ledger.violations.length then
          e.validators.forM (ask s.options s.oracle path e (m'.memory.view place v))
        else pure () : Work Unit).run m' := rfl
    refine .congr hask rfl rfl ?_
    by_cases hv : w.trail.violations = []
    · rw [if_pos (hlength.2 hv), if_pos hv, ← hafter, h.left]
      exact .forM (fun u m => tells_ask path e w.left u m) e.validators _
    · rw [if_neg (mt hlength.1 hv), if_neg hv]
      exact .of_pure ()
  · refine (congrArg (·.view place v) (memory_bind fun _ m' => ?_)).trans h.left
    exact (sound_askSince path m' m.ledger.violations.length place e v).memory_eq

end Mirrored

/-! ## A loop over parts -/

/-- Work that stays in a region and does there what a walk does. -/
structure Rendered (s : Setting) (place : Place) (region : Set Place) (looks : Memory → α) (w : Walk α) (x : Work Unit)
    (m : Machine) : Prop extends Mirrored place looks w x m where
  sound : Sound s.options s.oracle region x m

/-- **A loop over parts that stand apart does what the walk of the list does**, if the work on each part does what the walk
of the part does.  What was seen of a part stays, and parts that an ended loop has not come to are as they were. -/
theorem mirrored_each {f : Nat → α → Walk α} {work : α × Nat → Work Unit} {region : α × Nat → Set Place}
    {looks : α × Nat → Memory → α} (hlooks : ∀ part (memory memory' : Memory),
      (∀ p ∈ region part, memory' p = memory p) → looks part memory' = looks part memory) :
    ∀ {index : Nat} {parts : List α} {m : Machine},
      (parts.zipIdx index).Pairwise (fun a b => Apart (region a) (region b)) →
      (∀ part ∈ parts.zipIdx index, looks part m.memory = part.1) →
      (∀ part ∈ parts.zipIdx index, ∀ m' : Machine, (∀ p ∈ region part, m'.memory p = m.memory p) →
        Rendered s place (region part) (looks part) (f part.2 part.1) (work part) m') →
      Mirrored place (fun memory => (parts.zipIdx index).map fun part => looks part memory)
        (Walk.each f index parts) ((parts.zipIdx index).forM work) m
  | _, [], _, _, _, _ => .of_pure rfl
  | index, a :: rest, m, hd, hwhole, h => by
    rw [List.zipIdx_cons] at hd hwhole h ⊢
    obtain ⟨hapart, hd⟩ := List.pairwise_cons.1 hd
    have hhead := h _ List.mem_cons_self m fun _ _ => rfl
    -- the work on the first part leaves the regions of the others alone
    have hframe : ∀ part ∈ rest.zipIdx (index + 1), ∀ p ∈ region part,
        (after (work (a, index)) m).memory p = m.memory p := fun part hpart p hp =>
      hhead.sound.advance.frame p ((hapart part hpart).symm p hp)
    have huntouched : ∀ part ∈ rest.zipIdx (index + 1), looks part (after (work (a, index)) m).memory = part.1 :=
      fun part hpart => by rw [hlooks part _ _ (hframe part hpart), hwhole part (List.mem_cons_of_mem _ hpart)]
    have hrest : ∀ m', (work (a, index)).run m = .ok () m' → ∀ part ∈ rest.zipIdx (index + 1), ∀ m'' : Machine,
        (∀ p ∈ region part, m''.memory p = m'.memory p) →
          Rendered s place (region part) (looks part) (f part.2 part.1) (work part) m'' :=
      fun m' hm' part hpart m'' hm'' => h part (List.mem_cons_of_mem _ hpart) m'' fun p hp =>
        (hm'' p hp).trans (after_of_ok hm' ▸ hframe part hpart p hp)
    rw [forM_cons, Walk.each]
    refine hhead.toMirrored.cons (fun _ _ => ?_) (fun m' hm' => ?_) fun m' hm' => hlooks _ _ _ fun p hp => ?_
    · exact (List.map_congr_left huntouched).trans (List.zipIdx_map_fst ..)
    · exact mirrored_each hlooks hd (after_of_ok hm' ▸ huntouched) (hrest m' hm')
    · have hloop : Sound s.options s.oracle {p | ∃ part ∈ rest.zipIdx (index + 1), p ∈ region part}
          ((rest.zipIdx (index + 1)).forM work) m' :=
        .forM hd fun part hpart m'' hm'' => (hrest m' hm' part hpart m'' hm'').sound
      refine hloop.advance.frame p ?_
      rintro ⟨part, hpart, hp'⟩
      exact hapart part hpart p hp hp'

/-! ## The parts of a value -/

/-- Wherever a value is as it was, validating it in place does what its walk does. -/
def Mirrors (s : Setting) (v : Value) : Prop := ∀ e place path m, v.Unrepeated → Intact m.memory place v →
  Mirrored place (·.view place v) (s.walk path e v) (validate s.options s.oracle v e place path) m

theorem stands (s : Setting) (v : Value) : Stands s.options s.oracle v := fun e place path m hu h =>
  sound_validate e v place path m hu h

theorem mirrored_find {v : Value} {path : Pointer} {cause : Cause} {m : Machine} {here : Place}
    (hu : v.Unrepeated) (h : Intact m.memory here v) :
    Mirrored place (·.view here v) ⟨v, s.found path cause⟩ (find s.options path cause) m where
  tells := tells_find path cause m
  left := by
    have hquiet : Sound s.options s.oracle ∅ _ m := sound_find path m cause
    rw [hquiet.memory_eq]
    exact Memory.view_of_intact hu h

theorem rendered_fieldWork (path : Pointer) (children : List (String × Element)) {field : Key × Value} {m : Machine}
    (hu : field.2.Unrepeated) (ih : Mirrors s field.2) (h : Intact m.memory (place ++ [Step.field field.1]) field.2) :
    Rendered s place (inField place field) (·.look place field) (s.walkField path children field)
      (fieldWork s.options s.oracle place path children field) m := by
  refine ⟨?_, sound_fieldWork path children hu (stands s field.2) h⟩
  unfold fieldWork Setting.walkField
  cases Element.governing? children field.1 with
  | none => exact .of_pure (Prod.ext rfl (Memory.view_of_intact hu h))
  | some child =>
    have hchild := ih child _ (path.push field.1.token) m hu h
    exact ⟨hchild.tells.under, Prod.ext rfl hchild.left⟩

theorem rendered_entryWork (path : Pointer) (slots : List (Kind × Element)) (ordered : List Element) (allowNull : Bool)
    {index : Nat} {v : Value} {m : Machine} (hu : v.Unrepeated) (ih : Mirrors s v)
    (h : Intact m.memory (place ++ [Step.entry index]) v) :
    Rendered s place (within (place ++ [Step.entry index])) (·.view (place ++ [Step.entry index]) v)
      (s.walkEntry path slots ordered allowNull index v)
      (entryWork s.options place path slots ordered allowNull (handle s.options s.oracle v, index)) m := by
  refine ⟨?_, sound_entryWork path slots ordered allowNull hu (stands s v) h⟩
  unfold entryWork Setting.walkEntry handle
  cases Element.entryDemand slots ordered allowNull index v with
  | nothing => exact .of_pure (Memory.view_of_intact hu h)
  | refused cause => exact mirrored_find hu h
  | governed e =>
    have hentry := ih e _ (path.entry index) m hu h
    exact ⟨hentry.tells.under, hentry.left⟩

theorem tells_reportMissing (path : Pointer) (children : List (String × Element)) (fields : List (Key × Value))
    (m : Machine) : Tells place (s.reportMissing path children fields)
      (reportMissing s.options path children (fields.map Prod.fst)) m := by
  have hnames : Element.missingNames children fields =
      (Element.requiredNames children).filter fun name => !(fields.map Prod.fst).contains (.name name) := by
    refine List.filter_congr fun name _ => ?_
    rw [List.contains_eq_any_beq, List.any_map]
    simp only [Function.comp_def, BEq.comm]
  unfold Setting.reportMissing reportMissing
  rw [hnames]
  exact .forM (fun name m => tells_find (path.push name) _ m) _ m

theorem mirrored_fields (path : Pointer) (children : List (String × Element)) {fields : List (Key × Value)} {m : Machine}
    (h : Fresh m.memory place fields) (ih : ∀ field ∈ fields, Mirrors s field.2) :
    Mirrored place (fun memory => fields.map (memory.look place))
      (Walk.each (fun _ => s.walkField path children) 0 fields)
      (fields.forM (fieldWork s.options s.oracle place path children)) m := by
  have hmem : ∀ part ∈ fields.zipIdx, part.1 ∈ fields := fun part hpart =>
    List.mem_of_getElem? (List.mem_zipIdx_iff_getElem?.1 hpart)
  have hwork : fields.forM (fieldWork s.options s.oracle place path children) =
      fields.zipIdx.forM fun part => fieldWork s.options s.oracle place path children part.1 := by
    rw [← forM_map Prod.fst, List.zipIdx_map_fst]
  have hview : (fun memory : Memory => fields.map (memory.look place)) =
      fun memory => fields.zipIdx.map fun part => memory.look place part.1 := funext fun memory => by
    conv_lhs => rw [← List.zipIdx_map_fst 0 fields, List.map_map]
    rfl
  have hapart : fields.zipIdx.Pairwise fun a b => Apart (inField place a.1) (inField place b.1) := by
    have hpairs := pairwise_inField place h.keys
    rw [← List.zipIdx_map_fst 0 fields] at hpairs
    have hparts := List.pairwise_map.1 hpairs
    exact hparts
  have hlooks : ∀ (part : (Key × Value) × Nat) (memory memory' : Memory),
      (∀ p ∈ inField place part.1, memory' p = memory p) → memory'.look place part.1 = memory.look place part.1 :=
    fun _ _ _ hp => Prod.ext rfl (Memory.view_congr hp)
  rw [hwork, hview]
  refine mirrored_each (s := s) hlooks hapart (fun part hpart => ?_) fun part hpart m' hm' => ?_
  · exact Prod.ext rfl (Memory.view_of_intact (h.unrepeated _ (hmem part hpart)) (h.intact _ (hmem part hpart)))
  · exact rendered_fieldWork path children (h.unrepeated _ (hmem part hpart)) (ih _ (hmem part hpart))
      ((h.intact _ (hmem part hpart)).congr hm')

/-- The fields of an object, from the report of the missing ones on. -/
theorem mirrored_fieldsWork (path : Pointer) (children : List (String × Element)) {fields : List (Key × Value)}
    {m : Machine} (h : Fresh m.memory place fields) (ih : ∀ field ∈ fields, Mirrors s field.2) :
    Mirrored place (fun memory => fields.map (memory.look place))
      ((Walk.each (fun _ => s.walkField path children) 0 fields).after (s.reportMissing path children fields) fields)
      (fieldsWork s.options s.oracle place path children fields) m := by
  have hquiet : Sound s.options s.oracle ∅ _ m := sound_reportMissing path children (fields.map Prod.fst) m
  refine .after (tells_reportMissing path children fields m) (fun _ _ => ?_) fun m' hm' => ?_
  · rw [hquiet.memory_eq]
    conv_rhs => rw [← List.map_id fields]
    exact List.map_congr_left fun field hf =>
      Prod.ext rfl (Memory.view_of_intact (h.unrepeated field hf) (h.intact field hf))
  · have hsame : m'.memory = m.memory := after_of_ok hm' ▸ hquiet.memory_eq
    exact mirrored_fields path children (h.congr hsame) ih

theorem mirrored_entries (path : Pointer) (slots : List (Kind × Element)) (ordered : List Element) (allowNull : Bool)
    {shape : ArrayShape} {entries : List Value} {m : Machine} (h : Intact m.memory place (.array shape entries))
    (hu : ∀ v ∈ entries, v.Unrepeated) (ih : ∀ v ∈ entries, Mirrors s v) :
    Mirrored place (fun memory => entries.zipIdx.map fun entry => memory.view (place ++ [Step.entry entry.2]) entry.1)
      (Walk.each (s.walkEntry path slots ordered allowNull) 0 entries)
      ((entries.map (handle s.options s.oracle)).zipIdx.forM
        (entryWork s.options place path slots ordered allowNull)) m := by
  have hlooks : ∀ (part : Value × Nat) (memory memory' : Memory),
      (∀ p ∈ within (place ++ [Step.entry part.2]), memory' p = memory p) →
        memory'.view (place ++ [Step.entry part.2]) part.1 = memory.view (place ++ [Step.entry part.2]) part.1 :=
    fun _ _ _ hp => Memory.view_congr hp
  rw [forM_handles]
  refine mirrored_each (s := s) hlooks (pairwise_entries place entries) (fun part hpart => ?_) fun part hpart m' hm' => ?_
  · have hget := List.mem_zipIdx_iff_getElem?.1 hpart
    exact Memory.view_of_intact (hu _ (List.mem_of_getElem? hget)) (h.entry hget)
  · have hget := List.mem_zipIdx_iff_getElem?.1 hpart
    have hmem := List.mem_of_getElem? hget
    exact rendered_entryWork path slots ordered allowNull (hu _ hmem) (ih _ hmem) ((h.entry hget).congr hm')

/-- The entries of an array, as its element asks of them. -/
theorem mirrored_contentsWork (path : Pointer) (slots : List (Kind × Element)) (ordered : List Element) (allowNull : Bool)
    {shape : ArrayShape} {entries : List Value} {m : Machine} (h : Intact m.memory place (.array shape entries))
    (hu : (Value.array shape entries).Unrepeated) (ih : ∀ v ∈ entries, Mirrors s v) :
    Mirrored place (·.view place (.array shape entries))
      ((s.walkContents path slots ordered allowNull entries).map (.array shape))
      (contentsWork s.options place path slots ordered allowNull (entries.map (handle s.options s.oracle))) m := by
  have hentries := mirrored_entries path slots ordered allowNull h hu.of_array ih
  have hview : ∀ memory : Memory, memory.view place (.array shape entries) = _ := fun memory =>
    Memory.view_array memory place shape entries
  unfold contentsWork Setting.walkContents
  cases ArrayMode.ofContents slots ordered with
  | any =>
    unfold Setting.anyEntries
    simp only [List.any_map, Function.comp_def, handle]
    split
    · exact mirrored_find hu h
    · exact .of_pure (Memory.view_of_intact hu h)
  | typed | ordered => exact ⟨hentries.tells, (hview _).trans (congrArg (Value.array shape) hentries.left)⟩

/-! ## A value as a whole -/

theorem tells_schedule (children : List (String × Element)) (fields : List (Key × Value)) (m : Machine) :
    Tells place (s.noteUnlisted children fields)
      (if s.options.pruneUnlisted && !(s.unlistedKeys children fields).isEmpty then
        schedule ⟨place, s.unlistedKeys children fields⟩ else pure ()) m := by
  have hledger := s.add_noteUnlisted children fields place m.ledger
  have hevents : (s.noteUnlisted children fields).events = [] := by
    unfold Setting.noteUnlisted
    simp only
    split <;> rfl
  have htold : m.told = m.told ++ (s.noteUnlisted children fields).events := by rw [hevents, List.append_nil]
  split
  · rename_i h
    rw [if_pos h] at hledger
    have hrun : (schedule ⟨place, s.unlistedKeys children fields⟩).run m =
        .ok () { m with ledger := m.ledger.note ⟨place, s.unlistedKeys children fields⟩ } := rfl
    exact .of_ok hrun (s.clean_noteUnlisted children fields).halt hledger.symm htold
  · rename_i h
    rw [if_neg h] at hledger
    exact .of_ok (a := ()) rfl (s.clean_noteUnlisted children fields).halt hledger.symm htold

theorem tells_dropMeta (path : Pointer) {fields : List (Key × Value)} {m : Machine}
    (hk : m.memory place = fields.map Prod.fst) (hn : (fields.map Prod.fst).Nodup) :
    Tells place (s.dropMeta path fields) (dropMeta s.options place path (fields.map Prod.fst)) m := by
  have hclean := s.clean_dropMeta path fields
  refine .of_ok (dropMeta_eq path hk hn) hclean.halt ?_ ?_
  · rw [Ledger.add, hclean.violations, Setting.unlisted_dropMeta, List.append_nil, List.map_nil, List.append_nil]
    rfl
  · have hcount : ((fields.map Prod.fst).filter s.options.drops).length =
        (fields.filter (s.options.drops ·.1)).length := by
      rw [List.filter_map, List.length_map]
      rfl
    unfold Machine.dropped Setting.dropMeta
    simp only [hcount]
    split <;> rfl

/-- The walk of an object that has lost its meta fields already. -/
def walkKept (s : Setting) (path : Pointer) (e : Element) (children : List (String × Element))
    (fields : List (Key × Value)) : Walk Value :=
  let inside := (Walk.each (fun _ => s.walkField path children) 0 fields).after (s.reportMissing path children fields) fields
  let left := Value.object (inside.left.filter fun field => !s.options.drops field.1)
  ⟨left, (inside.trail.andIfClean (s.askAll path e left)).andThen (s.noteUnlisted children fields)⟩

theorem walk_object_eq (path : Pointer) (traits : Traits) (children : List (String × Element))
    (fields : List (Key × Value)) : s.walk path (.object traits children) (.object fields) =
      (walkKept s path (.object traits children) children fields).after (s.dropMeta path fields) (.object fields) := by
  have hclean := s.clean_dropMeta path fields
  have hleft : (s.walk path (.object traits children) (.object fields)).left =
      (walkKept s path (.object traits children) children fields).left := by
    rw [Setting.walk_object, Setting.walkObject, walkKept, Walk.after, Walk.after, Trail.andThen_of_none hclean.halt]
    cases (s.reportMissing path children fields).halt <;> rfl
  have htrail : (s.walk path (.object traits children) (.object fields)).trail =
      (s.dropMeta path fields).andThen (walkKept s path (.object traits children) children fields).trail := by
    rw [Setting.walk_object] at hleft ⊢
    rw [Setting.trail_walkObject, hleft, Trail.andThen_assoc, hclean.andIfClean_andThen, Trail.andThen_assoc,
      ← Walk.trail_after _ fields]
    rfl
  rw [Walk.after, hclean.halt]
  exact congrArg₂ Walk.mk hleft htrail

/-- What is left of an object that has lost its meta fields is what its fields leave. -/
theorem mirrored_objectWork (path : Pointer) (e : Element) (children : List (String × Element))
    {fields : List (Key × Value)} {m : Machine} (hk : m.memory place = (fields.map Prod.fst).filter (!s.options.drops ·))
    (h : Fresh m.memory place fields) (ih : ∀ field ∈ fields, Mirrors s field.2) :
    Mirrored place (·.view place (.object fields)) (walkKept s path e children fields)
      (objectWork s.options s.oracle place path e children fields (s.unlistedKeys children fields)) m := by
  have hfields := mirrored_fieldsWork path children h ih
  have hinside := sound_fieldsWork path children h fun field _ => stands s field.2
  have hkeys := hinside.advance.frame place fun ⟨field, _, hp⟩ => ne_of_mem_within hp rfl
  let inside := (Walk.each (fun _ => s.walkField path children) 0 fields).after (s.reportMissing path children fields) fields
  have hobject : Mirrored place (·.view place (.object fields))
      ⟨.object (inside.left.filter fun field => !s.options.drops field.1), inside.trail⟩
      (fieldsWork s.options s.oracle place path children fields) m := by
    refine ⟨hfields.tells, ?_⟩
    rw [Memory.view_object, hkeys, hk, ← hfields.left]
    refine congrArg Value.object (List.filter_congr fun field hf => ?_)
    obtain ⟨field, hfield, rfl⟩ := List.mem_map.1 hf
    have hkey : field.1 ∈ fields.map Prod.fst := List.mem_map_of_mem hfield
    simp only [Memory.look, List.mem_filter, hkey, true_and, Bool.decide_eq_true]
  exact (hobject.thenAsk (s := s) path e).then_quiet (tells_schedule children fields) fun m' => by split <;> rfl

/-- **An object loses its meta fields in place as in its walk**, and keeps of its other fields what they leave. -/
theorem mirrored_object (path : Pointer) (traits : Traits) (children : List (String × Element))
    {fields : List (Key × Value)} {m : Machine} (hu : (Value.object fields).Unrepeated)
    (h : Intact m.memory place (.object fields)) (ih : ∀ field ∈ fields, Mirrors s field.2) :
    Mirrored place (·.view place (.object fields)) (s.walk path (.object traits children) (.object fields))
      (validate s.options s.oracle (.object fields) (.object traits children) place path) m := by
  have hdrop : (dropMeta s.options place path (fields.map Prod.fst)).run m = _ := dropMeta_eq path h.keys hu.of_object.1
  have hwhole : (do
      dropMeta s.options place path (fields.map Prod.fst)
      objectWork s.options s.oracle place path (.object traits children) children fields
        (s.unlistedKeys children fields) : Work Unit).run m = _ := bind_of_ok hdrop
  rw [walk_object_eq]
  refine .congr ((validate_object_run path traits children h.keys hu.of_object.1).trans hwhole.symm) rfl rfl ?_
  refine .after (tells_dropMeta path h.keys hu.of_object.1) (fun halt hhalt => ?_) fun m' hm' => ?_
  · rw [(s.clean_dropMeta path fields).halt] at hhalt
    cases hhalt
  · rw [hdrop] at hm'
    cases hm'
    exact mirrored_objectWork path (.object traits children) children (dropped_memory_self path)
      (h.fresh_dropped hu s.options path) ih

/-- **Validating a value in place does what its walk does**: it writes down what the walk tells of, ends as the walk ends,
and leaves of the value what the walk leaves. -/
theorem mirrored_validate (e : Element) (v : Value) : ∀ place path m, v.Unrepeated → Intact m.memory place v →
    Mirrored place (·.view place v) (s.walk path e v) (validate s.options s.oracle v e place path) m := by
  induction e, v using Element.induct with
  | null e =>
    intro place path m hu h
    rw [validate_null, Setting.walk_null, Setting.nullField]
    split
    · exact .of_pure rfl
    · exact mirrored_find hu h
  | wrong e v hv ha =>
    intro place path m hu h
    rw [validate_wrong _ _ place path hv ha, Setting.walk_wrong s path hv ha]
    exact mirrored_find hu h
  | scalar e v hv ha =>
    intro place path m hu h
    have hcauses : Mirrored place (·.view place v) ⟨v, s.foundAll path (e.causes v)⟩
        ((e.causes v).forM (find s.options path)) m :=
      ⟨.forM (fun cause m => tells_find path cause m) _ m, Memory.view_scalar _ _ hv⟩
    rw [validate_scalar _ _ place path hv ha, Setting.walk_scalar s path hv ha]
    exact hcauses.thenAsk path e
  | object traits children fields ih =>
    intro place path m hu h
    exact mirrored_object path traits children hu h fun field hf e place path m => ih field hf e place path m
  | array traits slots ordered allowNull shape entries ih =>
    intro place path m hu h
    by_cases hl : ordered = [] ∨ ordered.length = entries.length
    · have hcontents := mirrored_contentsWork path slots ordered allowNull h hu
        fun v hv e place path m => ih v hv e place path m
      rw [validate_array _ _ place path traits slots allowNull shape hl,
        Setting.walk_array s path traits slots allowNull shape hl]
      exact hcontents.thenAsk path (.array traits slots ordered allowNull)
    · rw [validate_array_of_length_ne _ _ place path traits slots allowNull shape hl,
        Setting.walk_array_of_length_ne s path traits slots allowNull shape hl]
      exact mirrored_find hu h

end InPlace
end ConfigSchema
