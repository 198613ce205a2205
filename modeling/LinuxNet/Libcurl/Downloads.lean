/-
# LinuxNet.Libcurl.Downloads — does every download get a file of its own?

In both programs a download that has been written to a file which nobody else has opened is in that file,
chunk by chunk (`Lib.SharedFiles`), in whatever order the transfers go on and end. What goes wrong is the name:
it may not exist, which ends the program, and two URLs may have the same one. The downloads are kept exactly in
the runs in which neither happens (`downloads_kept_iff`).
-/
import LinuxNet.Libcurl.Programs

namespace LinuxNet.Libcurl

open LinuxNet.Lib LinuxNet.Cpp

variable {ι : Type*} [DecidableEq ι]

/-! ## When the downloads are kept -/

/-- What an event adds to the body of a download. -/
def Event.chunk (i : ℕ) : Event → Bytes
  | .callback j ptr _ _ => if j = i then ptr else []
  | .starts _ _ | .finishes _ _ | .performed _ _ | .waited _ | .opens _ _ | .writes _ _ => []

/-- The chunks of a download, one behind the other. -/
def chunks (i : ℕ) (es : List Event) : Bytes := es.flatMap (Event.chunk i)

/-- The assumption on libcurl: `ptr` points to `size * nmemb` bytes. -/
def Chunked (_ : State ι) : Event → Prop
  | .callback _ ptr size nmemb => ptr.length = size * nmemb ∧ size * nmemb < 2 ^ 64
  | .starts _ _ | .finishes _ _ | .performed _ _ | .waited _ | .opens _ _ | .writes _ _ => True

instance (s : State ι) : (e : Event) → Decidable (Chunked s e)
  | .callback _ ptr size nmemb =>
    inferInstanceAs (Decidable (ptr.length = size * nmemb ∧ size * nmemb < 2 ^ 64))
  | .starts _ _ | .finishes _ _ | .performed _ _ | .waited _ | .opens _ _ | .writes _ _ => isTrue trivial

/-- Nothing more happens to the download. -/
def Stage.Ended : Stage ι → Prop
  | .closed _ | .dropped => True
  | .starting | .receiving | .received | .writing _ _ => False

/-- The file is open. -/
def Stage.Writing : Stage ι → Prop
  | .writing _ _ => True
  | .starting | .receiving | .received | .closed _ | .dropped => False

/-- The program has come to its end: `main` has saved the last handle, or all threads have ended, or an
exception has ended them. -/
def State.Finished (t : State ι) : Prop :=
  t.phase = .returned ∨ t.phase = .thrown ∨ t.phase = .running ∧ ∀ d ∈ t.downloads, d.stage.Ended

instance : (stage : Stage ι) → Decidable stage.Ended
  | .closed _ | .dropped => isTrue trivial
  | .starting | .receiving | .received | .writing _ _ => isFalse id

instance (t : State ι) : Decidable t.Finished := inferInstanceAs (Decidable (_ ∨ _ ∨ _ ∧ _))

/-- **The downloads are kept**: no name has ended the program, and each download that has succeeded and whose
file could be opened has that file for itself, with its chunks in it. -/
structure Kept (es : List Event) (t : State ι) : Prop where
  noThrow : t.phase ≠ .thrown
  own : ∀ i d f, t.downloads[i]? = some d → .finishes i true ∈ es → d.stage = .closed f →
    (∀ j d', t.downloads[j]? = some d' → d'.stage = .closed f → j = i) ∧ t.files f = chunks i es

/-- **The condition**: the URLs that are given a name have at least 11 bytes, and no download that succeeds has
its file in common with another one whose file is opened. -/
structure Separate (file : Bytes → ι) (urls : List StdString) (es : List Event) : Prop where
  long : ∀ i url isOpen, urls[i]? = some url → .opens i isOpen ∈ es → 11 ≤ url.bytes.length
  apart : ∀ i j url url', urls[i]? = some url → urls[j]? = some url' → .finishes i true ∈ es →
    .opens i true ∈ es → .opens j true ∈ es → output file url' = output file url → j = i

omit [DecidableEq ι] in
/-- URLs that are long enough and whose files differ are apart in every run. -/
theorem separate_of_nodup {file : Bytes → ι} {urls : List StdString}
    (hlong : ∀ url ∈ urls, 11 ≤ url.bytes.length) (hnodup : (urls.map (output file)).Nodup) (es : List Event) :
    Separate file urls es := by
  constructor
  case long => exact fun i url _ hurl _ => hlong url (List.mem_of_getElem? hurl)
  case apart =>
    intro i j url url' hurl hurl' _ _ _ hsame
    have hfile : (urls.map (output file))[j]? = some (output file url') := by
      rw [List.getElem?_map, hurl']
      rfl
    have hfile' : (urls.map (output file))[i]? = some (output file url') := by
      rw [List.getElem?_map, hurl, hsame]
      rfl
    have hlt : j < (urls.map (output file)).length := (List.getElem?_eq_some_iff.mp hfile).1
    exact (List.getElem?_inj hlt hnodup).mp (hfile.trans hfile'.symm)

/-! ## Downloads and their events -/

section Events

variable (i : ℕ) (es : List Event) (e : Event)

theorem chunks_concat : chunks i (es ++ [e]) = chunks i es ++ e.chunk i := by
  rw [chunks, List.flatMap_append, List.flatMap_singleton]
  rfl

variable {i es e}

theorem mem_concat_of_ne {e' : Event} (hne : e ≠ e') : e' ∈ es ++ [e] ↔ e' ∈ es := by
  rw [List.mem_append, List.mem_singleton]
  exact or_iff_left (Ne.symm hne)

/-- The event does not open the file of a download, nor does it bring a chunk. -/
structure Event.Mute (i : ℕ) (e : Event) : Prop where
  chunk_eq : e.chunk i = []
  ne_opens : e ≠ .opens i true

theorem Event.Quiet.mute (h : e.Quiet) (i : ℕ) : e.Mute i := by
  cases e with
  | starts | finishes | performed | waited => exact ⟨rfl, Event.noConfusion⟩
  | callback | opens | writes => cases h

theorem mute_callback {j : ℕ} (hne : j ≠ i) (ptr : Bytes) (size nmemb : ℕ) :
    (Event.callback j ptr size nmemb).Mute i :=
  ⟨if_neg hne, Event.noConfusion⟩

theorem mute_opens {j : ℕ} (hne : j ≠ i) (isOpen : Bool) : (Event.opens j isOpen).Mute i := by
  refine ⟨rfl, fun hsame => ?_⟩
  cases hsame
  exact hne rfl

theorem mute_opens_false (i j : ℕ) : (Event.opens j false).Mute i := by
  refine ⟨rfl, fun hsame => ?_⟩
  cases hsame

theorem mute_writes (i j n : ℕ) : (Event.writes j n).Mute i := ⟨rfl, Event.noConfusion⟩

end Events

/-! ## The downloads of a state -/

/-- The file a download has opened, and how much is in it. -/
def Download.place (d : Download ι) : Option (ι × ℕ) :=
  match d.stage with
  | .writing f written => some (f, written)
  | .closed f => some (f, d.data.length)
  | .starting | .receiving | .received | .dropped => none

/-- The file. -/
def Download.opened (d : Download ι) : Option ι := d.place.map Prod.fst

/-- The downloads as writers. -/
def State.desk (s : State ι) : Desk ℕ ι UInt8 := ⟨fun i => (s.downloads[i]?).bind Download.place, s.files⟩

/-- What they write. -/
def State.text (s : State ι) (i : ℕ) : Bytes := ((s.downloads[i]?).map Download.data).getD []

/-- The URLs. -/
def State.urls (s : State ι) : List StdString := s.downloads.map Download.url

section Put

omit [DecidableEq ι]

variable {s : State ι} {i : ℕ} {d d' : Download ι}

theorem Stage.Fileless.place {stage : Stage ι} (h : stage.Fileless) (url : StdString) (data : Bytes) :
    (Download.mk url data stage).place = none := by
  cases stage with
  | starting | receiving | received | dropped => rfl
  | writing | closed => cases h

theorem Stage.Fileless.opened {stage : Stage ι} (h : stage.Fileless) (url : StdString) (data : Bytes) :
    (Download.mk url data stage).opened = none :=
  congrArg (Option.map Prod.fst) (h.place url data)

theorem Stage.Fileless.not_writing {stage : Stage ι} (h : stage.Fileless) : ¬ stage.Writing := by
  cases stage with
  | starting | receiving | received | dropped => exact id
  | writing | closed => cases h

theorem Stage.Ended.not_writing {stage : Stage ι} (h : stage.Ended) : ¬ stage.Writing := by
  cases stage with
  | closed | dropped => exact id
  | starting | receiving | received | writing => cases h

theorem Download.opened_of_closed {d : Download ι} {f : ι} (h : d.stage = .closed f) : d.opened = some f := by
  rw [Download.opened, Download.place, h]
  rfl

/-- A file that has been opened and is not open any more has been closed. -/
theorem Download.closed_of_opened (d : Download ι) {f : ι} (h : d.opened = some f)
    (hwriting : ¬ d.stage.Writing) : d.stage = .closed f := by
  rcases d with ⟨url, data, stage⟩
  cases stage with
  | starting | receiving | received | dropped => cases h
  | writing => exact absurd trivial hwriting
  | closed =>
      cases h
      rfl

theorem getElem?_put (hd : s.downloads[i]? = some d) (d' : Download ι) (j : ℕ) :
    (s.put i d').downloads[j]? = if j = i then some d' else s.downloads[j]? := by
  have hlt : i < s.downloads.length := (List.getElem?_eq_some_iff.mp hd).1
  rw [State.put, List.getElem?_set, if_pos hlt]
  exact if_congr eq_comm rfl rfl

theorem place_put (hd : s.downloads[i]? = some d) (d' : Download ι) :
    (s.put i d').desk.place = Function.update s.desk.place i d'.place := by
  funext j
  show ((s.put i d').downloads[j]?).bind Download.place = _
  rw [getElem?_put hd, Function.update_apply]
  split
  · rfl
  · rfl

theorem text_put (hd : s.downloads[i]? = some d) (d' : Download ι) :
    (s.put i d').text = Function.update s.text i d'.data := by
  funext j
  rw [State.text, getElem?_put hd, Function.update_apply]
  split
  · rfl
  · rfl

theorem place_eq (hd : s.downloads[i]? = some d) : s.desk.place i = d.place := by
  show (s.downloads[i]?).bind Download.place = _
  rw [hd]
  rfl

theorem text_eq (hd : s.downloads[i]? = some d) : s.text i = d.data := by
  rw [State.text, hd]
  rfl

/-- A download that gets no file, and keeps none. -/
theorem desk_put (hd : s.downloads[i]? = some d) (hsame : d'.place = d.place) :
    (s.put i d').desk = s.desk := by
  have hplace : (s.put i d').desk.place = s.desk.place := by
    rw [place_put hd, hsame, ← place_eq hd, Function.update_eq_self]
  exact congrArg (Desk.mk · s.files) hplace

theorem text_put_same (hd : s.downloads[i]? = some d) (hsame : d'.data = d.data) :
    (s.put i d').text = s.text := by
  rw [text_put hd, hsame, ← text_eq hd, Function.update_eq_self]

theorem getElem?_urls (hd : s.downloads[i]? = some d) : s.urls[i]? = some d.url := by
  rw [State.urls, List.getElem?_map, hd]
  rfl

theorem urls_put (hd : s.downloads[i]? = some d) (hsame : d'.url = d.url) : (s.put i d').urls = s.urls := by
  have hat : s.urls[i]? = some d'.url := by rw [getElem?_urls hd, hsame]
  obtain ⟨hlt, hget⟩ := List.getElem?_eq_some_iff.mp hat
  show (s.downloads.set i d').map Download.url = s.urls
  rw [List.map_set, ← hget]
  exact List.set_getElem_self hlt

end Put

/-! ## The steps -/

section Steps

variable {file : Bytes → ι} {s t : State ι} {e : Event} {es : List Event}

theorem urls_of_step (h : Step file s e t) : t.urls = s.urls := by
  cases h with
  | moves | throws => rfl
  | turns _ _ hd => exact urls_put hd rfl
  | receives _ hd => exact urls_put hd rfl
  | opens _ hd => exact urls_put hd rfl
  | drops _ hd => exact urls_put hd rfl
  | writes _ hd => exact urls_put hd rfl
  | closes _ hd => exact urls_put hd rfl

omit [DecidableEq ι] in
/-- A download that gets no file keeps what the others find. -/
theorem holds_put {i : ℕ} {d d' : Download ι} (hs : s.desk.Holds s.text) (hd : s.downloads[i]? = some d)
    (hplace : d'.place = d.place) (hdata : d'.data = d.data) : (s.put i d').desk.Holds (s.put i d').text := by
  rw [desk_put hd hplace, text_put_same hd hdata]
  exact hs

/-- A download that writes a piece. -/
theorem holds_written {i n written : ℕ} {url : StdString} {data : Bytes} {f : ι} {d : Download ι}
    (hs : s.desk.Holds s.text) (hd : s.downloads[i]? = some ⟨url, data, .writing f written⟩)
    (hdata : d.data = data) (hplace : d.place = some (f, written + ((data.drop written).take n).length)) :
    Desk.Holds (s.put i d).text
      ⟨(s.put i d).desk.place,
        Function.update s.files f (overlay 0 (s.files f) written ((data.drop written).take n))⟩ := by
  have hwrite := hs.write 0 (place_eq hd) n
  rw [text_eq hd] at hwrite
  rw [text_put_same hd hdata, place_put hd, hplace]
  exact hwrite

/-- **Whoever has a file alone finds in it what has been written.** -/
theorem holds_of_step (hs : s.desk.Holds s.text) (h : Step file s e t) : t.desk.Holds t.text := by
  cases h with
  | moves | throws => exact hs
  | turns _ _ hd hstage hstage' =>
      exact holds_put hs hd ((hstage'.place _ _).trans (hstage.place _ _).symm) rfl
  | @receives i url data ptr size nmemb _ hd =>
      have hdesk : (s.put i ⟨url, (performCallback data ptr size nmemb).1, .receiving⟩).desk = s.desk :=
        desk_put hd rfl
      rw [hdesk, text_put hd]
      refine hs.congr fun j f n hplace => Function.update_of_ne ?_ _ _
      rintro rfl
      rw [place_eq hd] at hplace
      cases hplace
  | @opens i url data stage _ hd hstage =>
      have hnew : s.desk.place i = none := (place_eq hd).trans (hstage.place url data)
      have hdesk : State.desk { s.put i ⟨url, data, .writing (output file url) 0⟩ with
          files := Function.update s.files (output file url) [] } = s.desk.create i (output file url) :=
        congrArg (Desk.mk · _) (place_put hd _)
      have htext : (s.put i ⟨url, data, .writing (output file url) 0⟩).text = s.text := text_put_same hd rfl
      rw [hdesk]
      show Desk.Holds (s.put i ⟨url, data, .writing (output file url) 0⟩).text _
      rw [htext]
      exact hs.create hnew _
  | @drops i url data stage phase _ hd hstage =>
      have hkept : (s.put i ⟨url, data, .dropped⟩).desk.Holds (s.put i ⟨url, data, .dropped⟩).text :=
        holds_put hs hd (hstage.place _ _).symm rfl
      exact hkept
  | @writes i n written url data f _ hd =>
      exact holds_written hs hd rfl rfl
  | @closes i n written url data f phase _ hd hall =>
      have hle : written ≤ (s.text i).length := (hs i f written (place_eq hd)).1
      have htext : s.text i = data := text_eq hd
      rw [htext] at hle
      have hpiece := piece_length_le data written n
      have hend : data.length = written + ((data.drop written).take n).length := by omega
      have hplace : (Download.mk url data (.closed f)).place =
          some (f, written + ((data.drop written).take n).length) := congrArg (fun k => some (f, k)) hend
      exact holds_written hs hd rfl hplace

/-- **What the events say of a download**: its string is what it was given, and its file is the one of its name,
when it has been opened. -/
structure Told (file : Bytes → ι) (es : List Event) (i : ℕ) (d : Download ι) : Prop where
  data_eq : d.data = chunks i es
  opened_iff : ∀ f, d.opened = some f ↔ .opens i true ∈ es ∧ output file d.url = f

omit [DecidableEq ι] in
theorem Told.of_mute {i : ℕ} {d : Download ι} (h : Told file es i d) (hmute : e.Mute i) :
    Told file (es ++ [e]) i d where
  data_eq := by rw [chunks_concat, hmute.chunk_eq, List.append_nil, h.data_eq]
  opened_iff f := by rw [mem_concat_of_ne hmute.ne_opens, h.opened_iff]

omit [DecidableEq ι] in
theorem Told.congr {i : ℕ} {d d' : Download ι} (h : Told file es i d) (hurl : d'.url = d.url)
    (hdata : d'.data = d.data) (hopened : d'.opened = d.opened) : Told file es i d' where
  data_eq := by rw [hdata, h.data_eq]
  opened_iff f := by rw [hopened, h.opened_iff, hurl]

omit [DecidableEq ι] in
/-- One download has changed. -/
theorem told_put {i : ℕ} {d d' : Download ι} (hs : ∀ j d, s.downloads[j]? = some d → Told file es j d)
    (hd : s.downloads[i]? = some d) (hother : ∀ j, j ≠ i → e.Mute j) (hself : Told file (es ++ [e]) i d') :
    ∀ j d, (s.put i d').downloads[j]? = some d → Told file (es ++ [e]) j d := by
  intro j d'' hj
  rw [getElem?_put hd] at hj
  split at hj
  next hji =>
    subst hji
    cases hj
    exact hself
  next hji => exact (hs j d'' hj).of_mute (hother j hji)

theorem told_of_step (hs : ∀ i d, s.downloads[i]? = some d → Told file es i d) (hok : Chunked s e)
    (h : Step file s e t) (hrunning : t.phase ≠ .thrown) :
    ∀ i d, t.downloads[i]? = some d → Told file (es ++ [e]) i d := by
  cases h with
  | moves hquiet => exact fun i d hd => (hs i d hd).of_mute (hquiet.mute i)
  | throws => exact absurd rfl hrunning
  | @turns _ i url data stage stage' hquiet _ hd hstage hstage' =>
      have hkept := (hs i _ hd).of_mute (hquiet.mute i)
      have hnone : (Download.mk url data stage').opened = (Download.mk url data stage).opened :=
        (hstage'.opened _ _).trans (hstage.opened _ _).symm
      exact told_put hs hd (fun j _ => hquiet.mute j) (hkept.congr rfl rfl hnone)
  | @receives i url data ptr size nmemb _ hd =>
      refine told_put hs hd (fun j hji => mute_callback (Ne.symm hji) ptr size nmemb) ⟨?_, fun f => ?_⟩
      · have hdata : data = chunks i es := (hs i _ hd).data_eq
        have hchunk : Event.chunk i (.callback i ptr size nmemb) = ptr := if_pos rfl
        rw [chunks_concat, hchunk, ← hdata, performCallback_chunk hok.1 hok.2]
      · rw [mem_concat_of_ne Event.noConfusion]
        exact (hs i _ hd).opened_iff f
  | @opens i url data stage _ hd =>
      refine told_put hs hd (fun j hji => mute_opens (Ne.symm hji) true) ⟨?_, fun f => ?_⟩
      · have hdata : data = chunks i es := (hs i _ hd).data_eq
        have hchunk : Event.chunk i (.opens i true) = [] := rfl
        rw [chunks_concat, hchunk, List.append_nil, ← hdata]
      · have hnow : Event.opens i true ∈ es ++ [.opens i true] :=
          List.mem_append_right _ (List.mem_singleton.mpr rfl)
        rw [and_iff_right hnow]
        exact Option.some_inj
  | @drops i url data stage phase _ hd hstage =>
      have hkept := (hs i _ hd).of_mute (mute_opens_false i i)
      exact told_put hs hd (fun j _ => mute_opens_false j i) (hkept.congr rfl rfl (hstage.opened _ _).symm)
  | @writes i n written url data f _ hd =>
      have hkept := (hs i _ hd).of_mute (mute_writes i i n)
      exact told_put hs hd (fun j _ => mute_writes j i n) (hkept.congr rfl rfl rfl)
  | @closes i n written url data f phase _ hd =>
      have hkept := (hs i _ hd).of_mute (mute_writes i i n)
      exact told_put hs hd (fun j _ => mute_writes j i n) (hkept.congr rfl rfl rfl)

/-- When a download has its file open, it is its turn. -/
def State.InTurn (s : State ι) : Prop := ∀ i d, s.downloads[i]? = some d → d.stage.Writing → s.Turn i

omit [DecidableEq ι] in
/-- One download has changed; if another one has its file open, nothing has come to an end. -/
theorem turn_put {i : ℕ} {d d' : Download ι} {phase : Phase} {files : ι → Bytes} (hs : s.InTurn)
    (hd : s.downloads[i]? = some d) (hnext : s.Next i phase)
    (hself : d'.stage.Writing → phase = s.phase ∧ s.Turn i) :
    State.InTurn ⟨phase, (s.put i d').downloads, files⟩ := by
  intro j d'' hj hwriting
  show phase = .running ∨ phase = .saving j
  have hat : (s.put i d').downloads[j]? = some d'' := hj
  rw [getElem?_put hd] at hat
  split at hat
  next hji =>
    subst hji
    cases hat
    obtain ⟨hphase, hturn⟩ := hself hwriting
    rw [hphase]
    exact hturn
  next hji =>
    have hturn := hs j d'' hat hwriting
    rcases hnext with hphase | ⟨hsaving, -⟩
    · rw [hphase]
      exact hturn
    · rcases hturn with hrunning | hsaving'
      · rw [hsaving] at hrunning
        cases hrunning
      · rw [hsaving] at hsaving'
        cases hsaving'
        exact absurd rfl hji

theorem inTurn_of_step (hs : s.InTurn) (h : Step file s e t) (hrunning : t.phase ≠ .thrown) : t.InTurn := by
  cases h with
  | moves _ hphase =>
      intro i d hd hwriting
      exact absurd hphase (hs i d hd hwriting).not_receiving
  | throws => exact absurd rfl hrunning
  | turns _ hphase => exact fun _ _ _ _ => .inl hphase
  | receives _ hd => exact turn_put hs hd (.inl rfl) False.elim
  | opens hturn hd => exact turn_put hs hd (.inl rfl) fun _ => ⟨rfl, hturn⟩
  | drops _ hd _ _ hnext => exact turn_put hs hd hnext False.elim
  | writes hturn hd => exact turn_put hs hd (.inl rfl) fun _ => ⟨rfl, hturn⟩
  | closes _ hd _ hnext => exact turn_put hs hd hnext False.elim

/-! ## Names that do not exist -/

/-- A URL that is given a name is too short. -/
def Short (urls : List StdString) (es : List Event) : Prop :=
  ∃ i url isOpen, urls[i]? = some url ∧ .opens i isOpen ∈ es ∧ url.bytes.length < 11

theorem thrown_of_step (hrunning : s.phase ≠ .thrown) (h : Step file s e t) (hthrown : t.phase = .thrown) :
    Short s.urls [e] := by
  cases h with
  | moves _ _ hnext => exact absurd hthrown hnext
  | @throws i url data stage isOpen _ hd hshort =>
      exact ⟨i, url, isOpen, getElem?_urls hd, List.mem_singleton.mpr rfl, hshort⟩
  | turns | receives | opens | writes => exact absurd hthrown hrunning
  | drops _ _ _ _ hnext | closes _ _ _ hnext =>
      rcases hnext with hsame | ⟨-, hno⟩
      · exact absurd (hsame.symm.trans hthrown) hrunning
      · exact absurd hthrown hno

theorem long_of_step (h : Step file s e t) (hrunning : t.phase ≠ .thrown) {i : ℕ} {url : StdString}
    {isOpen : Bool} (he : e = .opens i isOpen) (hurl : s.urls[i]? = some url) : 11 ≤ url.bytes.length := by
  cases h with
  | moves hquiet | turns hquiet =>
      subst he
      cases hquiet
  | throws => exact absurd rfl hrunning
  | receives | writes | closes => cases he
  | opens _ hd _ hlong | drops _ hd _ hlong =>
      cases he
      rw [getElem?_urls hd] at hurl
      cases hurl
      exact hlong

end Steps

/-! ## Runs -/

section Runs

variable (file : Bytes → ι) (urls : List StdString)

/-- **What is true of a run** that has not been ended by an exception. -/
structure Tracks (es : List Event) (s : State ι) : Prop where
  running : s.phase ≠ .thrown
  urls_eq : s.urls = urls
  long : ∀ i url isOpen, urls[i]? = some url → .opens i isOpen ∈ es → 11 ≤ url.bytes.length
  told : ∀ i d, s.downloads[i]? = some d → Told file es i d
  holds : s.desk.Holds s.text
  inTurn : s.InTurn

variable {file urls} {s t : State ι} {e : Event} {es : List Event}

theorem Tracks.of_step (hs : Tracks file urls es s) (hok : Chunked s e) (h : Step file s e t)
    (hrunning : t.phase ≠ .thrown) : Tracks file urls (es ++ [e]) t where
  running := hrunning
  urls_eq := (urls_of_step h).trans hs.urls_eq
  long i url isOpen hurl hin := by
    rcases List.mem_append.mp hin with hin | hnow
    · exact hs.long i url isOpen hurl hin
    · rw [← hs.urls_eq] at hurl
      exact long_of_step h hrunning (List.mem_singleton.mp hnow).symm hurl
  told := told_of_step hs.told hok h hrunning
  holds := holds_of_step hs.holds h
  inTurn := inTurn_of_step hs.inTurn h hrunning

/-- Nothing follows an exception. -/
theorem not_thrown_of_step (h : Step file s e t) : s.phase ≠ .thrown := by
  cases h with
  | moves _ hphase => exact hphase.ne_thrown
  | turns _ hrunning =>
      rw [hrunning]
      exact Phase.noConfusion
  | receives hphase =>
      rcases hphase with hrunning | hreceiving
      · rw [hrunning]
        exact Phase.noConfusion
      · exact hreceiving.ne_thrown
  | throws hturn | opens hturn | drops hturn | writes hturn | closes hturn => exact hturn.ne_thrown

omit [DecidableEq ι] in
/-- No program begins with a file. -/
theorem init_downloads (p : Program) (urls : List StdString) (files : ι → Bytes) :
    ∃ stage : Stage ι, stage.Fileless ∧
      (p.init urls files).downloads = urls.map fun url => ⟨url, [], stage⟩ := by
  rcases p with _ | _
  · exact ⟨.receiving, trivial, rfl⟩
  · exact ⟨.starting, trivial, rfl⟩

omit [DecidableEq ι] in
theorem tracks_init (p : Program) (files : ι → Bytes) : Tracks file urls [] (p.init urls files) := by
  obtain ⟨stage, hstage, hdownloads⟩ := init_downloads p urls files
  have hfresh : ∀ (i : ℕ) d, (p.init urls files).downloads[i]? = some d →
      ∃ url, d = Download.mk url [] stage := by
    intro i d hd
    rw [hdownloads, List.getElem?_map] at hd
    obtain ⟨url, -, rfl⟩ := Option.map_eq_some_iff.mp hd
    exact ⟨url, rfl⟩
  constructor
  case running => rcases p with _ | _ <;> exact Phase.noConfusion
  case urls_eq =>
    rw [State.urls, hdownloads, List.map_map]
    exact List.map_id urls
  case long => exact fun _ _ _ _ hin => absurd hin List.not_mem_nil
  case told =>
    intro i d hd
    obtain ⟨url, rfl⟩ := hfresh i d hd
    refine ⟨rfl, fun f => ?_⟩
    rw [hstage.opened]
    refine iff_of_false ?_ fun h => absurd h.1 List.not_mem_nil
    rintro ⟨⟩
  case holds =>
    intro i f n hplace
    obtain ⟨d, hd, hd'⟩ := Option.bind_eq_some_iff.mp hplace
    obtain ⟨url, rfl⟩ := hfresh i d hd
    rw [hstage.place] at hd'
    cases hd'
  case inTurn =>
    intro i d hd hwriting
    obtain ⟨url, rfl⟩ := hfresh i d hd
    exact absurd hwriting hstage.not_writing

variable {p : Program} {files : ι → Bytes}

/-- **The run lemma**: an exception was thrown at a URL that is too short, or all is as it should be. -/
theorem short_or_tracks (h : Run (p.step file) Chunked (p.init urls files) es t) :
    t.phase = .thrown ∧ Short urls es ∨ Tracks file urls es t := by
  refine h.invariant_events (I := fun es s => s.phase = .thrown ∧ Short urls es ∨ Tracks file urls es s)
    ?_ (.inr (tracks_init p files))
  intro es s e t hs hok hst
  have hstep := Step.of_step hst
  rcases hs with ⟨hthrown, -⟩ | hs
  · exact absurd hthrown (not_thrown_of_step hstep)
  · by_cases hthrown : t.phase = .thrown
    · obtain ⟨i, url, isOpen, hurl, hin, hshort⟩ := thrown_of_step hs.running hstep hthrown
      rw [hs.urls_eq] at hurl
      exact .inl ⟨hthrown, i, url, isOpen, hurl, List.mem_append_right _ hin, hshort⟩
    · exact .inr (hs.of_step hok hstep hthrown)

section Finished

variable (hs : Tracks file urls es s)
include hs

omit [DecidableEq ι] in
theorem Tracks.exists_download {i : ℕ} {url : StdString} (hurl : urls[i]? = some url) :
    ∃ d, s.downloads[i]? = some d ∧ d.url = url := by
  rw [← hs.urls_eq, State.urls, List.getElem?_map] at hurl
  exact Option.map_eq_some_iff.mp hurl

omit [DecidableEq ι] in
theorem Tracks.url_eq {i : ℕ} {d : Download ι} (hd : s.downloads[i]? = some d) : urls[i]? = some d.url := by
  rw [← hs.urls_eq]
  exact getElem?_urls hd

omit [DecidableEq ι] in
/-- When the program has come to its end, no file is open. -/
theorem Tracks.closed_iff (hfin : s.Finished) {i : ℕ} {d : Download ι} {f : ι}
    (hd : s.downloads[i]? = some d) :
    d.stage = .closed f ↔ .opens i true ∈ es ∧ output file d.url = f := by
  rw [← (hs.told i d hd).opened_iff f]
  have hended : ¬ d.stage.Writing := by
    intro hwriting
    rcases hfin with hreturned | hthrown | ⟨-, hended⟩
    · exact (hs.inTurn i d hd hwriting).ne_returned hreturned
    · exact hs.running hthrown
    · exact (hended d (List.mem_of_getElem? hd)).not_writing hwriting
  exact ⟨Download.opened_of_closed, fun hopened => d.closed_of_opened hopened hended⟩

variable (hfin : s.Finished)
include hfin

omit [DecidableEq ι] in
theorem Tracks.separate (hkept : Kept es s) : Separate file urls es := by
  refine ⟨hs.long, ?_⟩
  intro i j url url' hurl hurl' hfinishes hopens hopens' hsame
  obtain ⟨d, hd, rfl⟩ := hs.exists_download hurl
  obtain ⟨d', hd', rfl⟩ := hs.exists_download hurl'
  have hclosed : d.stage = .closed (output file d.url) := (hs.closed_iff hfin hd).mpr ⟨hopens, rfl⟩
  have hclosed' : d'.stage = .closed (output file d.url) := (hs.closed_iff hfin hd').mpr ⟨hopens', hsame⟩
  exact (hkept.own i d _ hd hfinishes hclosed).1 j d' hd' hclosed'

omit [DecidableEq ι] in
theorem Tracks.kept (hseparate : Separate file urls es) : Kept es s := by
  refine ⟨hs.running, ?_⟩
  intro i d f hd hfinishes hclosed
  obtain ⟨hopens, hfile⟩ := (hs.closed_iff hfin hd).mp hclosed
  have hown : ∀ j d', s.downloads[j]? = some d' → d'.opened = some f → j = i := by
    intro j d' hd' hopened
    obtain ⟨hopens', hfile'⟩ := ((hs.told j d' hd').opened_iff f).mp hopened
    exact hseparate.apart i j d.url d'.url (hs.url_eq hd) (hs.url_eq hd') hfinishes hopens hopens'
      (hfile'.trans hfile.symm)
  refine ⟨fun j d' hd' hclosed' => hown j d' hd' (Download.opened_of_closed hclosed'), ?_⟩
  -- so it has its file alone, and all of its string is in it
  have halone : s.desk.Alone i f := by
    rintro j ⟨n, hplace⟩
    obtain ⟨d', hd', hplace'⟩ := Option.bind_eq_some_iff.mp hplace
    exact hown j d' hd' (congrArg (Option.map Prod.fst) hplace')
  have hplace : s.desk.place i = some (f, d.data.length) := by
    rw [place_eq hd, Download.place, hclosed]
  have hcontent : s.files f = (s.text i).take d.data.length := (hs.holds i f _ hplace).2 halone
  rw [hcontent, text_eq hd, List.take_length, (hs.told i d hd).data_eq]

end Finished

/-- **The downloads are kept exactly if their names exist and are apart.** -/
theorem downloads_kept_iff (h : Run (p.step file) Chunked (p.init urls files) es t) (hfin : t.Finished) :
    Kept es t ↔ Separate file urls es := by
  rcases short_or_tracks h with ⟨hthrown, i, url, isOpen, hurl, hin, hshort⟩ | hs
  · refine iff_of_false (fun hkept => hkept.noThrow hthrown) fun hseparate => ?_
    have hlong := hseparate.long i url isOpen hurl hin
    omega
  · exact ⟨hs.separate hfin, hs.kept hfin⟩

end Runs

/-! ## Two downloads -/

/-- Two downloads succeed and are written to their files, one after the other. -/
def twoDownloads : Program → List Event
  | .multiHandle =>
    [.performed true 2, .callback 0 (ofText "1") 1 1, .callback 1 (ofText "2") 1 1, .finishes 0 true,
      .finishes 1 true, .performed true 0, .waited true, .opens 0 true, .writes 0 1, .opens 1 true, .writes 1 1]
  | .multithreaded =>
    [.starts 0 true, .starts 1 true, .callback 0 (ofText "1") 1 1, .callback 1 (ofText "2") 1 1,
      .finishes 0 true, .finishes 1 true, .opens 0 true, .writes 0 1, .opens 1 true, .writes 1 1]

/-- Two URLs of the programs. -/
def ownUrls : List StdString :=
  [⟨ofText "http://www.bing.com", by decide⟩, ⟨ofText "http://www.google.com", by decide⟩]

/-- In a run of `curl_multi_handle.cpp` two of its URLs are kept. -/
theorem downloads_kept_iff_ownUrls :
    ∃ t, Run (Program.step id .multiHandle) Chunked (Program.init ownUrls (fun _ => []) .multiHandle)
        (twoDownloads .multiHandle) t ∧ Kept (twoDownloads .multiHandle) t := by
  have hexec : (execOk (Program.step id .multiHandle) Chunked
      (Program.init ownUrls (fun _ => []) .multiHandle) (twoDownloads .multiHandle)).any
        (fun t => decide t.Finished) = true := by decide
  obtain ⟨t, hrun, hfin⟩ := exists_run_of_exec_any hexec
  have hseparate : Separate id ownUrls (twoDownloads .multiHandle) :=
    separate_of_nodup (by decide) (by decide) _
  exact ⟨t, hrun, (downloads_kept_iff hrun (of_decide_eq_true hfin)).mpr hseparate⟩

/-! ## Two URLs with one name -/

/-- An absolute URL: a scheme, `://` and something behind it. -/
def Absolute (url : StdString) : Prop :=
  ∃ scheme rest, url.bytes = scheme ++ ofText "://" ++ rest ∧ scheme ≠ [] ∧ rest ≠ []

/-- Two URLs that begin with `https`: the 12th byte is a dot, so only three bytes of `bing` and of `bind` go
into the names. -/
def bingUrl : StdString := ⟨ofText "https://www.bing.com", by decide⟩

def bindUrl : StdString := ⟨ofText "https://www.bind.com", by decide⟩

theorem absolute_bingUrl : Absolute bingUrl :=
  ⟨ofText "https", ofText "www.bing.com", by decide, by decide, by decide⟩

theorem absolute_bindUrl : Absolute bindUrl :=
  ⟨ofText "https", ofText "www.bind.com", by decide, by decide, by decide⟩

/-- Both downloads are written to one file. -/
theorem exists_overwritten (p : Program) :
    ∃ t, Run (p.step id) Chunked (p.init [bingUrl, bindUrl] fun _ => []) (twoDownloads p) t ∧ t.Finished ∧
      ¬ Kept (twoDownloads p) t := by
  have hexec : (execOk (p.step id) Chunked (p.init [bingUrl, bindUrl] fun _ => []) (twoDownloads p)).any
      (fun t => decide (t.Finished ∧ t.downloads =
        [⟨bingUrl, ofText "1", .closed (ofText ".bin.html")⟩,
          ⟨bindUrl, ofText "2", .closed (ofText ".bin.html")⟩])) = true := by
    rcases p with _ | _
    · decide
    · decide
  obtain ⟨t, hrun, ht⟩ := exists_run_of_exec_any hexec
  obtain ⟨hfin, hdownloads⟩ := of_decide_eq_true ht
  refine ⟨t, hrun, hfin, fun hkept => ?_⟩
  have hfinishes : .finishes 0 true ∈ twoDownloads p := by
    rcases p with _ | _
    · decide
    · decide
  have hfirst : t.downloads[0]? = some ⟨bingUrl, ofText "1", .closed (ofText ".bin.html")⟩ := by
    rw [hdownloads]
    rfl
  have hsecond : t.downloads[1]? = some ⟨bindUrl, ofText "2", .closed (ofText ".bin.html")⟩ := by
    rw [hdownloads]
    rfl
  have hsame := (hkept.own 0 _ _ hfirst hfinishes rfl).1 1 _ hsecond rfl
  cases hsame

/-- Two different absolute URLs. -/
theorem not_kept (p : Program) :
    ¬ ∀ (urls : List StdString) (files : Bytes → Bytes) (es : List Event) (t : State Bytes),
      urls.Nodup → (∀ url ∈ urls, Absolute url) → Run (p.step id) Chunked (p.init urls files) es t →
        t.Finished → Kept es t := by
  intro hall
  obtain ⟨t, hrun, hfin, hlost⟩ := exists_overwritten p
  refine hlost (hall [bingUrl, bindUrl] (fun _ => []) _ t (by decide) ?_ hrun hfin)
  intro url hurl
  rcases List.mem_pair.mp hurl with rfl | rfl
  · exact absolute_bingUrl
  · exact absolute_bindUrl

/-- **One download overwrites another one**, in both programs. -/
theorem downloads_overwritten :
    (¬ ∀ (urls : List StdString) (files : Bytes → Bytes) (es : List Event) (t : State Bytes),
      urls.Nodup → (∀ url ∈ urls, Absolute url) →
        Run (Program.step id .multiHandle) Chunked (Program.init urls files .multiHandle) es t →
          t.Finished → Kept es t) ∧
    ¬ ∀ (urls : List StdString) (files : Bytes → Bytes) (es : List Event) (t : State Bytes),
      urls.Nodup → (∀ url ∈ urls, Absolute url) →
        Run (Program.step id .multithreaded) Chunked (Program.init urls files .multithreaded) es t →
          t.Finished → Kept es t :=
  ⟨not_kept .multiHandle, not_kept .multithreaded⟩

end LinuxNet.Libcurl
