import Mathlib.Logic.Function.Basic
import Musgravite.LabDetail
import Musgravite.Library.TransitionSystem

/-! # The posters of the videos

A row of videos has a few `VideoCollectionViewCell`s, and shows a video by filling in
one of them that is free.  The title is set at once; the thumbnail is made in the
background and put into the cell whenever it is ready, whatever the cell is used for by
then, and nothing takes the old one away in between.

`posters_right_iff` is the exact condition under which no cell shows the thumbnail of
another video, and `posters_right_without_reuse` says that reuse is all that breaks it. -/
namespace Musgravite

inductive UIImage
  /-- `UIImage()` -/
  | blank
  | thumbnail (uri : String)

structure VideoCollectionViewCell where
  posterImage : Option UIImage := none
  videoTitle : String := ""
  filetype : String := ""

structure VideoTableViewCell where
  videoURI : List String
  /-- The cells that there are to be dequeued. -/
  cells : Nat → VideoCollectionViewCell := fun _ => {}
  /-- The index a cell was last dequeued for. -/
  assigned : Nat → Option Nat := fun _ => none
  /-- The thumbnails that are being made, each for a cell and an index. -/
  jobs : List (Nat × Nat) := []

namespace VideoTableViewCell

inductive Event
  /-- The index comes into view, and this cell is dequeued for it. -/
  | cellForItemAt (cell item : Nat)
  /-- The `k`-th job is done. -/
  | thumbnailDownloaded (k : Nat) (success : Bool)

def downloadThumbnail (success : Bool) (path : String) : UIImage :=
  if success then .thumbnail path else .blank

variable {URL : Type} (urls : URLs URL)

/-- The row after an event, `none` if it cannot happen or the app traps. -/
def step (self : VideoTableViewCell) : Event → Option VideoTableViewCell
  | .cellForItemAt cell item => do
      let uri ← self.videoURI[item]?
      let (fileName, fileExtension) ← Cell.title urls uri
      return { self with
        jobs := self.jobs ++ [(cell, item)]
        cells := Function.update self.cells cell { self.cells cell with
          videoTitle := fileName, filetype := fileExtension ++ " file" }
        assigned := Function.update self.assigned cell (some item) }
  | .thumbnailDownloaded k success => do
      let (cell, item) ← self.jobs[k]?
      let uri ← self.videoURI[item]?
      return { self with
        jobs := self.jobs.eraseIdx k
        cells := Function.update self.cells cell { self.cells cell with
          posterImage := some (downloadThumbnail success uri) } }

end VideoTableViewCell

/-- A row of videos, step by step. -/
def videoRow {URL : Type} (urls : URLs URL) :
    TransitionSystem VideoTableViewCell VideoTableViewCell.Event :=
  ⟨VideoTableViewCell.step urls⟩

namespace VideoTableViewCell
variable {URL : Type} {urls : URLs URL} {s t : VideoTableViewCell} {e : Event}

/-- What a step can do. -/
inductive StepCase (s : VideoTableViewCell) : Event → VideoTableViewCell → Prop
  | cellForItemAt (cell item : Nat) (uri : String) (t : VideoTableViewCell)
      (huri : s.videoURI[item]? = some uri)
      (hvideoURI : t.videoURI = s.videoURI) (hjobs : t.jobs = s.jobs ++ [(cell, item)])
      (hposter : ∀ c, (t.cells c).posterImage = (s.cells c).posterImage)
      (hassigned : t.assigned = Function.update s.assigned cell (some item)) :
      StepCase s (.cellForItemAt cell item) t
  | thumbnailDownloaded (k : Nat) (success : Bool) (cell item : Nat) (uri : String)
      (t : VideoTableViewCell) (hjob : s.jobs[k]? = some (cell, item))
      (huri : s.videoURI[item]? = some uri)
      (hvideoURI : t.videoURI = s.videoURI) (hjobs : t.jobs = s.jobs.eraseIdx k)
      (hposter : ∀ c, (t.cells c).posterImage =
        if c = cell then some (downloadThumbnail success uri) else (s.cells c).posterImage)
      (hassigned : t.assigned = s.assigned) :
      StepCase s (.thumbnailDownloaded k success) t

theorem step_cases (h : (videoRow urls).step s e = some t) : StepCase s e t := by
  cases e with
  | cellForItemAt cell item =>
    obtain ⟨uri, huri, h⟩ := Option.bind_eq_some_iff.mp h
    obtain ⟨title, -, h⟩ := Option.bind_eq_some_iff.mp h
    obtain rfl := Option.some.inj h
    refine .cellForItemAt cell item uri _ huri rfl rfl (fun c => ?_) rfl
    by_cases hc : c = cell
    · simp [hc]
    · simp [Function.update_of_ne hc]
  | thumbnailDownloaded k success =>
    obtain ⟨⟨cell, item⟩, hjob, h⟩ := Option.bind_eq_some_iff.mp h
    obtain ⟨uri, huri, h⟩ := Option.bind_eq_some_iff.mp h
    obtain rfl := Option.some.inj h
    refine .thumbnailDownloaded k success cell item uri _ hjob huri rfl rfl (fun c => ?_) rfl
    by_cases hc : c = cell
    · simp [hc]
    · simp [hc]

theorem step_cellForItemAt {cell item : Nat} {uri fileName fileExtension : String}
    (huri : s.videoURI[item]? = some uri)
    (htitle : Cell.title urls uri = some (fileName, fileExtension)) :
    (videoRow urls).step s (.cellForItemAt cell item) = some { s with
      jobs := s.jobs ++ [(cell, item)]
      cells := Function.update s.cells cell { s.cells cell with
        videoTitle := fileName, filetype := fileExtension ++ " file" }
      assigned := Function.update s.assigned cell (some item) } := by
  simp [videoRow, step, huri, htitle]

/-! ## The thumbnail of another video -/

/-- The poster is blank, or it is the thumbnail of the video at the index. -/
def Fits (videoURI : List String) (item : Nat) (posterImage : Option UIImage) : Prop :=
  ∀ uri, posterImage = some (.thumbnail uri) → videoURI[item]? = some uri

/-- Every cell shows what it was dequeued for, or nothing yet. -/
def Right (s : VideoTableViewCell) : Prop :=
  ∀ cell item, s.assigned cell = some item → Fits s.videoURI item (s.cells cell).posterImage

/-- The condition on a step: a cell is dequeued only for an index that its poster fits, and
the thumbnail of a video is ready only while its cell stands for the same video. -/
def FitsCell (s : VideoTableViewCell) : Event → Prop
  | .cellForItemAt cell item => Fits s.videoURI item (s.cells cell).posterImage
  | .thumbnailDownloaded k true => ∀ cell item now, s.jobs[k]? = some (cell, item) →
      s.assigned cell = some now → s.videoURI[now]? = s.videoURI[item]?
  | .thumbnailDownloaded _ false => True

theorem fits_downloadThumbnail {videoURI : List String} {item : Nat} {success : Bool}
    {uri : String} : Fits videoURI item (some (downloadThumbnail success uri)) ↔
      (success = true → videoURI[item]? = some uri) := by
  cases success <;> simp [Fits, downloadThumbnail]

/-- **One step keeps the posters right exactly if it meets the condition.** -/
theorem right_iff (hs : Right s) (h : (videoRow urls).step s e = some t) :
    Right t ↔ FitsCell s e := by
  cases step_cases h with
  | cellForItemAt cell item uri t huri hvideoURI hjobs hposter hassigned =>
    simp only [Right, FitsCell, hvideoURI, hposter, hassigned]
    constructor
    · intro hright
      exact hright cell item (Function.update_self ..)
    · intro hfits c i hi
      by_cases hc : c = cell
      · subst hc
        rw [Function.update_self, Option.some.injEq] at hi
        exact hi ▸ hfits
      · rw [Function.update_of_ne hc] at hi
        exact hs c i hi
  | thumbnailDownloaded k success cell item uri t hjob huri hvideoURI hjobs hposter hassigned =>
    have hright : Right t ↔
        ∀ now, s.assigned cell = some now → success = true → s.videoURI[now]? = some uri := by
      simp only [Right, hvideoURI, hposter, hassigned]
      constructor
      · intro hright now hnow
        exact fits_downloadThumbnail.mp (by simpa using hright cell now hnow)
      · intro hright c i hi
        by_cases hc : c = cell
        · subst hc
          rw [if_pos rfl]
          exact fits_downloadThumbnail.mpr (hright i hi)
        · rw [if_neg hc]
          exact hs c i hi
    rw [hright]
    cases success with
    | true =>
      constructor
      · intro h c i now hjob' hnow
        obtain ⟨rfl, rfl⟩ := Prod.mk.inj (Option.some.inj (hjob.symm.trans hjob'))
        rw [huri]
        exact h now hnow rfl
      · intro h now hnow _
        rw [h cell item now hjob hnow, huri]
    | false => simp [FitsCell]

/-! ## Cells that are not reused -/

/-- Whatever has to do with a cell has to do with the one video of it. -/
structure OneVideo (videoURI : List String) (url : Nat → String) (s : VideoTableViewCell) :
    Prop where
  uris : s.videoURI = videoURI
  assigned : ∀ cell item, s.assigned cell = some item → videoURI[item]? = some (url cell)
  poster : ∀ cell uri, (s.cells cell).posterImage = some (.thumbnail uri) → uri = url cell
  jobs : ∀ job ∈ s.jobs, videoURI[job.2]? = some (url job.1)

theorem OneVideo.right {videoURI : List String} {url : Nat → String}
    (h : OneVideo videoURI url s) : Right s := by
  intro cell item hitem uri huri
  rw [h.uris, h.poster cell uri huri]
  exact h.assigned cell item hitem

theorem OneVideo.step {videoURI : List String} {url : Nat → String} (h : OneVideo videoURI url s)
    (he : ∀ cell item, e = .cellForItemAt cell item → videoURI[item]? = some (url cell))
    (hstep : (videoRow urls).step s e = some t) : OneVideo videoURI url t := by
  cases step_cases hstep with
  | cellForItemAt cell item uri t huri hvideoURI hjobs hposter hassigned =>
    refine ⟨hvideoURI.trans h.uris, fun c i hi => ?_, fun c u hu => ?_, fun job hjob => ?_⟩
    · rw [hassigned] at hi
      by_cases hc : c = cell
      · subst hc
        rw [Function.update_self, Option.some.injEq] at hi
        exact hi ▸ he c item rfl
      · rw [Function.update_of_ne hc] at hi
        exact h.assigned c i hi
    · exact h.poster c u (hposter c ▸ hu)
    · rw [hjobs, List.mem_append, List.mem_singleton] at hjob
      rcases hjob with hjob | rfl
      · exact h.jobs job hjob
      · exact he cell item rfl
  | thumbnailDownloaded k success cell item uri t hjob huri hvideoURI hjobs hposter hassigned =>
    refine ⟨hvideoURI.trans h.uris, fun c i hi => h.assigned c i (hassigned ▸ hi),
      fun c u hu => ?_, fun job hmem => h.jobs job (List.mem_of_mem_eraseIdx (hjobs ▸ hmem))⟩
    rw [hposter] at hu
    split at hu
    · rename_i hc
      have hurl := h.jobs _ (List.mem_of_getElem? hjob)
      rw [← h.uris, huri, Option.some.injEq] at hurl
      cases success with
      | true =>
        injection Option.some.inj hu with hu
        rw [← hu, hc, hurl]
      | false => cases hu
    · exact h.poster c u hu

end VideoTableViewCell

/-- **When no cell shows the thumbnail of another video**: in a run, exactly if all its
steps meet `FitsCell`. -/
theorem posters_right_iff {URL : Type} (urls : URLs URL) (videoURI : List String)
    (es : List VideoTableViewCell.Event) (s : VideoTableViewCell)
    (hrun : (videoRow urls).run { videoURI } es = some s) :
    (∀ u, (videoRow urls).Visits { videoURI } es u → VideoTableViewCell.Right u) ↔
      (videoRow urls).Meets VideoTableViewCell.FitsCell { videoURI } es :=
  (videoRow urls).visited_iff_meets (I := fun _ => True) (fun _ _ => trivial)
    (fun _ hs h => VideoTableViewCell.right_iff hs h) trivial (fun _ _ h => nomatch h) hrun

/-- **Posters are right without reuse**: if in the run each cell is dequeued for one video
only. -/
theorem posters_right_without_reuse {URL : Type} (urls : URLs URL) (videoURI : List String)
    (es : List VideoTableViewCell.Event) (url : Nat → String)
    (h : ∀ cell item, .cellForItemAt cell item ∈ es → videoURI[item]? = some (url cell))
    (u : VideoTableViewCell) (hu : (videoRow urls).Visits { videoURI } es u) :
    VideoTableViewCell.Right u := by
  have hmeets : (videoRow urls).Meets (fun _ e => ∀ cell item, e = .cellForItemAt cell item →
      videoURI[item]? = some (url cell)) { videoURI } es :=
    (videoRow urls).meets_of_forall _ fun e he _ cell item heq => h cell item (heq ▸ he)
  have hstart : VideoTableViewCell.OneVideo videoURI url { videoURI } :=
    ⟨rfl, fun _ _ h => (nomatch h), fun _ _ h => (nomatch h), fun _ h => (nomatch h)⟩
  exact ((videoRow urls).visits_invariant_of_meets (fun hs he hstep => hs.step he hstep) hstart
    hmeets hu).right

def threeVideos : List String := ["https://a/1.mp4", "https://a/2.mp4", "https://a/3.mp4"]

/-- Three videos in two cells: the thumbnail of the first cannot be made, and its cell is
used for the third after that. -/
theorem posters_right_three :
    ∃ s, (videoRow httpsURLs).run { videoURI := threeVideos } [.cellForItemAt 0 0,
        .cellForItemAt 1 1, .thumbnailDownloaded 0 false, .cellForItemAt 0 2,
        .thumbnailDownloaded 1 true] = some s ∧
      ∀ u, (videoRow httpsURLs).Visits { videoURI := threeVideos } [.cellForItemAt 0 0,
        .cellForItemAt 1 1, .thumbnailDownloaded 0 false, .cellForItemAt 0 2,
        .thumbnailDownloaded 1 true] u → VideoTableViewCell.Right u := by
  refine ⟨_, rfl, (posters_right_iff httpsURLs threeVideos _ _ rfl).mpr ?_⟩
  have h₁ : Cell.title httpsURLs "https://a/1.mp4" = some ("1", "mp4") := by decide +kernel
  have h₂ : Cell.title httpsURLs "https://a/2.mp4" = some ("2", "mp4") := by decide +kernel
  have h₃ : Cell.title httpsURLs "https://a/3.mp4" = some ("3", "mp4") := by decide +kernel
  refine ((videoRow httpsURLs).meets_cons _ (VideoTableViewCell.step_cellForItemAt rfl h₁)).mpr
    ⟨fun _ h => (nomatch h), ?_⟩
  refine ((videoRow httpsURLs).meets_cons _ (VideoTableViewCell.step_cellForItemAt rfl h₂)).mpr
    ⟨fun _ h => (nomatch h), ?_⟩
  refine ((videoRow httpsURLs).meets_cons _ rfl).mpr ⟨trivial, ?_⟩
  refine ((videoRow httpsURLs).meets_cons _ (VideoTableViewCell.step_cellForItemAt rfl h₃)).mpr
    ⟨fun _ h => (nomatch h), ?_⟩
  refine ((videoRow httpsURLs).meets_cons _ rfl).mpr ⟨?_, trivial⟩
  intro cell item now hjob hnow
  obtain ⟨rfl, rfl⟩ := Prod.mk.inj (Option.some.inj hjob)
  obtain rfl := Option.some.inj hnow
  rfl

/-- The cell of the first video is used for the third: it shows the first one's thumbnail
until its own is ready; and if its own is ready first, from then on. -/
theorem posters_wrong_three :
    (∃ s, (videoRow httpsURLs).run { videoURI := threeVideos }
        [.cellForItemAt 0 0, .thumbnailDownloaded 0 true, .cellForItemAt 0 2] = some s ∧
      s.assigned 0 = some 2 ∧ (s.cells 0).posterImage = some (.thumbnail "https://a/1.mp4") ∧
      ¬ VideoTableViewCell.Right s) ∧
    ∃ s, (videoRow httpsURLs).run { videoURI := threeVideos }
        [.cellForItemAt 0 0, .cellForItemAt 0 2, .thumbnailDownloaded 1 true,
          .thumbnailDownloaded 0 true] = some s ∧
      s.assigned 0 = some 2 ∧ (s.cells 0).posterImage = some (.thumbnail "https://a/1.mp4") ∧
      s.jobs = [] ∧ ¬ VideoTableViewCell.Right s := by
  refine ⟨⟨_, rfl, rfl, rfl, fun h => ?_⟩, _, rfl, rfl, rfl, rfl, fun h => ?_⟩
  · exact absurd (h 0 2 rfl _ rfl) (by decide)
  · exact absurd (h 0 2 rfl _ rfl) (by decide)

end Musgravite
