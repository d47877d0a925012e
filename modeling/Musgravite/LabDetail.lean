import Musgravite.Getters

/-! # The page of a classroom

`LabDetailViewController` shows one row for each content element of the classroom,
and the rows for images, videos and documents have a collection of their own inside.
A cell says how many items it has, what it shows at an index and what a tap on an
index opens, in three methods.

`ShowsEachOnce` is the contract: the items stand for the media of the classroom, one
for one, and a tap opens what is shown.  `showsEachOnce_iff` says for which documents
it holds. -/
namespace Musgravite
open FieldValue FirebaseController

/-- What the app uses of `URL`: `URL(string:)`, `path` and `lastPathComponent`. -/
structure URLs (URL : Type) where
  url : String → Option URL
  path : URL → String
  lastPathComponent : URL → String

/-- `components(separatedBy:)`, for a separator of one character. -/
def components (s : String) (separator : Char) : List String :=
  (s.toList.splitOn separator).map String.ofList

namespace SchoolSearchVM

/-- The name and the extension of a file, from the path of its URL;
`filenameParts![1]` traps without a dot. -/
def extractAndBreakFilenameInComponents (path : String) : Option (String × String) := do
  let fileURLParts := components path '/'
  let fileName ← fileURLParts.getLast?
  let filenameParts := components fileName '.'
  return (← filenameParts[0]?, ← filenameParts[1]?)

end SchoolSearchVM

open SchoolSearchVM

/-- Something a classroom has to show, by the text of its URL. -/
inductive Medium
  | image (uri : String)
  | panorama (uri : String)
  | video (uri : String)
  | document (uri : String)
deriving DecidableEq

def Medium.uri : Medium → String
  | image uri => uri
  | panorama uri => uri
  | video uri => uri
  | document uri => uri

/-! ## The cells -/

/-- An `ImageCarrouselTableViewCell`. -/
structure ImageCarrousel where
  images : Option (List String)
  image360 : Option String

namespace ImageCarrousel

/-- `images?.count ?? 0 + (image360?.count ?? 0)`: the whole sum is what stands in for
a missing `images?.count`. -/
def numberOfItems (self : ImageCarrousel) : Nat :=
  (self.images.map List.length).getD (0 + (self.image360.map String.length).getD 0)

def cellForItemAt (self : ImageCarrousel) (item : Nat) : Option Medium :=
  if item = 0 ∧ self.image360.isSome then self.image360.map .panorama
  else (self.images.bind fun images => images[item]?).map .image

def didSelectItemAt {URL : Type} (urls : URLs URL) (self : ImageCarrousel) (item : Nat) :
    Option URL :=
  if self.image360.isSome ∧ item = 0 then self.image360.bind urls.url
  else (self.images.bind fun images => images[item]?).bind urls.url

end ImageCarrousel

/-- A cell of the page. -/
inductive Cell
  | poster (posterImage classroomName buildingName : String)
  | imageCarrousel (cell : ImageCarrousel)
  | video (videoURI : Option (List String))
  | resources (documents : Option (List String))

namespace Cell
variable {URL : Type} (urls : URLs URL)

def numberOfItems : Cell → Option Nat
  | poster .. => some 0
  | imageCarrousel cell => some cell.numberOfItems
  | video videoURI => videoURI.map List.length
  | resources documents => documents.map List.length

/-- The title that a video or a document is shown with; both unwrap the URL. -/
def title (uri : String) : Option (String × String) :=
  (urls.url uri).bind fun url => extractAndBreakFilenameInComponents (urls.path url)

/-- What an item shows, `none` if showing it traps. -/
def cellForItemAt : Cell → Nat → Option Medium
  | poster .., _ => none
  | imageCarrousel cell, item => cell.cellForItemAt item
  | video videoURI, item => (videoURI.bind fun videoURI => videoURI[item]?).bind fun uri =>
      (title urls uri).map fun _ => .video uri
  | resources documents, item => (documents.bind fun documents => documents[item]?).bind fun uri =>
      (title urls uri).map fun _ => .document uri

/-- What a tap on an item opens, `none` if it traps.  A video is opened in one of two
players, with the same URL. -/
def didSelectItemAt : Cell → Nat → Option URL
  | poster .., _ => none
  | imageCarrousel cell, item => cell.didSelectItemAt urls item
  | video videoURI, item => (videoURI.bind fun videoURI => videoURI[item]?).bind urls.url
  | resources documents, item => (documents.bind fun documents => documents[item]?).bind urls.url

end Cell

/-! ## The page -/

namespace LabDetail

/-- `tableView(_:numberOfRowsInSection:)` unwraps the classroom. -/
def numberOfRows (selectedClassroom : Option Salon) : Option Nat :=
  selectedClassroom.map fun selectedClassroom => selectedClassroom.contents.length

/-- The cell for a content element. -/
def dequeue (content : ContentElement) : Option Cell :=
  match content.contentType with
  | .poster => some (.poster content.posterImage content.classroomName
      (content.building ++ " - " ++ toString content.buildnumb))
  | .imageCarrousel => some (.imageCarrousel
      ⟨some content.images, if content.image360 ≠ "" then some content.image360 else none⟩)
  | .videoCarrousel => some (.video (some content.videos))
  -- the height of the row unwraps the documents
  | .documentCarrousel => content.documents.map fun documents => .resources (some documents)
  | .unknown => some (.poster
      "http://martinmolina.com.mx/201813/novus2018/Musgravite/pictures/dani.jpg" "wow" "")

def cellForRowAt (contents : List ContentElement) (row : Nat) : Option Cell :=
  contents[row]?.bind dequeue

variable {URL : Type} (urls : URLs URL)

/-- The items of a cell, `none` for one that traps. -/
def cellItems : Option Cell → List (Option Medium)
  | some cell => match cell.numberOfItems with
    | some n => (List.range n).map (cell.cellForItemAt urls)
    | none => [none]
  | none => [none]

/-- The items of all rows. -/
def items (contents : List ContentElement) : List (Option Medium) :=
  (List.range contents.length).flatMap fun row => cellItems urls (cellForRowAt contents row)

end LabDetail

/-- The strings in the array `key` of a document, if it is there. -/
def storedStrings (data : Fields) (key : String) : Option (List String) :=
  (data.lookup key).bind asStrings

/-- The panorama of a document, if it has one; the empty text stands for none. -/
def storedPanorama (data : Fields) : Option String :=
  ((data.lookup "imagen360").bind asString).filter fun uri => uri ≠ ""

/-- The content elements for the media of a stored classroom, in the order of their
rows. -/
def mediaElements (data : Fields) : List ContentElement :=
  (storedStrings data "imagenes").toList.map (fun images =>
      ContentElement.ofImages images ((storedPanorama data).getD "")) ++
    (storedStrings data "videos").toList.map ContentElement.ofVideos ++
    (storedStrings data "documentos").toList.map ContentElement.ofDocuments

/-- A panorama that is an empty text is as good as none. -/
theorem getD_storedPanorama (data : Fields) :
    (storedPanorama data).getD "" = ((data.lookup "imagen360").bind asString).getD "" := by
  unfold storedPanorama
  cases (data.lookup "imagen360").bind asString with
  | none => rfl
  | some uri => by_cases h : uri = "" <;> simp [Option.filter, h]

/-- The first row of a classroom, if its document decodes. -/
def posterElements (data : Fields) : Option (List ContentElement) :=
  match data.lookup "nombre" with
  | some name =>
      (field data "posterImage" asString).bind fun posterImage =>
      name.asString.bind fun classroomName =>
      (field data "edificio" asString).bind fun building =>
      (field data "numero" asInt).map fun buildnumb =>
        [ContentElement.ofPoster posterImage classroomName building buildnumb]
  | none => some []

def imageElements (data : Fields) : Option (List ContentElement) :=
  match data.lookup "imagenes", data.lookup "imagen360" with
  | some imageArray, some panonoImage =>
      imageArray.asStrings.bind fun images =>
      panonoImage.asString.map fun image360 => [ContentElement.ofImages images image360]
  | some imageArray, none => imageArray.asStrings.map fun images => [ContentElement.ofImages images]
  | none, _ => some []

/-- The row for the strings in one array of the document. -/
def arrayElements (data : Fields) (key : String) (make : List String → ContentElement) :
    Option (List ContentElement) :=
  match data.lookup key with
  | some stored => stored.asStrings.map fun strings => [make strings]
  | none => some []

section Rest
-- the rest of the decoder, as a function of the row
variable {β : Type} (data : Fields) (rest : List ContentElement → Option β)

theorem posterElements_bind :
    (match data.lookup "nombre" with
      | some name => do
          let posterImage ← field data "posterImage" asString
          let classroomName ← name.asString
          let building ← field data "edificio" asString
          let buildnumb ← field data "numero" asInt
          let poster ← pure [ContentElement.ofPoster posterImage classroomName building buildnumb]
          rest poster
      | none => do
          let poster ← pure []
          rest poster) = (posterElements data).bind rest := by
  unfold posterElements
  cases data.lookup "nombre" with
  | none => rfl
  | some name => simp [Option.map_eq_bind, Option.bind_assoc]

theorem imageElements_bind :
    (match data.lookup "imagenes" with
      | some imageArray => match data.lookup "imagen360" with
        | some panonoImage => do
            let images ← imageArray.asStrings
            let image360 ← panonoImage.asString
            let images ← pure [ContentElement.ofImages images image360]
            rest images
        | none => do
            let images ← imageArray.asStrings
            let images ← pure [ContentElement.ofImages images]
            rest images
      | none => do
          let images ← pure []
          rest images) = (imageElements data).bind rest := by
  unfold imageElements
  cases data.lookup "imagenes" with
  | none => rfl
  | some imageArray =>
    cases data.lookup "imagen360" <;> simp [Option.map_eq_bind, Option.bind_assoc]

theorem arrayElements_bind (key : String) (make : List String → ContentElement) :
    (match data.lookup key with
      | some stored => do
          let strings ← stored.asStrings
          let made ← pure [make strings]
          rest made
      | none => do
          let made ← pure []
          rest made) = (arrayElements data key make).bind rest := by
  unfold arrayElements
  cases data.lookup key with
  | none => rfl
  | some stored => simp [Option.map_eq_bind, Option.bind_assoc]

end Rest

/-- The decoder, one row after the other. -/
theorem decodeSalon_eq (documentID : String) (data : Fields) :
    decodeSalon documentID data =
      (posterElements data).bind fun poster =>
      (imageElements data).bind fun images =>
      (arrayElements data "videos" ContentElement.ofVideos).bind fun videos =>
      (arrayElements data "documentos" ContentElement.ofDocuments).bind fun documents =>
      (field data "nombre" asString).bind fun nombre =>
      (field data "cursos" asReferences).bind fun cursos =>
      (field data "edificio" asString).bind fun edificio =>
      (field data "numero" asInt).bind fun numero =>
      (field data "tipo" asInt).map fun tipo =>
        Salon.make documentID nombre cursos edificio numero tipo
          (poster ++ images ++ videos ++ documents) := by
  unfold decodeSalon
  extract_lets withPoster
  refine (posterElements_bind data withPoster).trans (Option.bind_congr fun poster _ => ?_)
  simp -zeta only [withPoster]
  extract_lets withImages
  refine (imageElements_bind data withImages).trans (Option.bind_congr fun images _ => ?_)
  simp -zeta only [withImages]
  extract_lets withVideos
  refine (arrayElements_bind data withVideos "videos" ContentElement.ofVideos).trans
    (Option.bind_congr fun videos _ => ?_)
  simp -zeta only [withVideos]
  extract_lets withDocuments
  refine (arrayElements_bind data withDocuments "documentos" ContentElement.ofDocuments).trans
    (Option.bind_congr fun documents _ => ?_)
  simp only [withDocuments, Option.map_eq_bind, Option.bind_eq_bind, Option.pure_def]
  rfl

theorem posterElements_eq_some {data : Fields} {poster : List ContentElement} {nombre : String}
    (h : posterElements data = some poster) (hnombre : field data "nombre" asString = some nombre) :
    ∃ posterImage classroomName building buildnumb,
      poster = [ContentElement.ofPoster posterImage classroomName building buildnumb] := by
  unfold posterElements at h
  split at h
  · obtain ⟨posterImage, -, h⟩ := Option.bind_eq_some_iff.mp h
    obtain ⟨classroomName, -, h⟩ := Option.bind_eq_some_iff.mp h
    obtain ⟨building, -, h⟩ := Option.bind_eq_some_iff.mp h
    obtain ⟨buildnumb, -, rfl⟩ := Option.map_eq_some_iff.mp h
    exact ⟨posterImage, classroomName, building, buildnumb, rfl⟩
  · rename_i hnone
    rw [field, hnone] at hnombre
    cases hnombre

theorem imageElements_eq_some {data : Fields} {images : List ContentElement}
    (h : imageElements data = some images) :
    images = (storedStrings data "imagenes").toList.map fun images =>
      ContentElement.ofImages images ((storedPanorama data).getD "") := by
  rw [storedStrings, getD_storedPanorama]
  unfold imageElements at h
  split at h
  · rename_i imageArray panonoImage himages hpanorama
    obtain ⟨l, hl, h⟩ := Option.bind_eq_some_iff.mp h
    obtain ⟨image360, hp, rfl⟩ := Option.map_eq_some_iff.mp h
    simp [himages, hpanorama, hl, hp]
  · rename_i imageArray himages hpanorama
    obtain ⟨l, hl, rfl⟩ := Option.map_eq_some_iff.mp h
    simp [himages, hpanorama, hl]
  · rename_i himages
    obtain rfl := Option.some.inj h
    simp [himages]

theorem arrayElements_eq_some {data : Fields} {key : String} {make : List String → ContentElement}
    {rows : List ContentElement} (h : arrayElements data key make = some rows) :
    rows = (storedStrings data key).toList.map make := by
  rw [storedStrings]
  unfold arrayElements at h
  split at h
  · rename_i stored hstored
    obtain ⟨l, hl, rfl⟩ := Option.map_eq_some_iff.mp h
    simp [hstored, hl]
  · rename_i hnone
    obtain rfl := Option.some.inj h
    simp [hnone]

/-- **What a classroom that decodes has to show**: its poster and its media. -/
theorem contents_of_decodeSalon {id : String} {data : Fields} {salon : Salon}
    (h : decodeSalon id data = some salon) :
    ∃ posterImage classroomName building buildnumb, salon.contents =
      .ofPoster posterImage classroomName building buildnumb :: mediaElements data := by
  rw [decodeSalon_eq] at h
  obtain ⟨poster, hposter, h⟩ := Option.bind_eq_some_iff.mp h
  obtain ⟨images, himages, h⟩ := Option.bind_eq_some_iff.mp h
  obtain ⟨videos, hvideos, h⟩ := Option.bind_eq_some_iff.mp h
  obtain ⟨documents, hdocuments, h⟩ := Option.bind_eq_some_iff.mp h
  obtain ⟨nombre, hnombre, h⟩ := Option.bind_eq_some_iff.mp h
  obtain ⟨cursos, -, h⟩ := Option.bind_eq_some_iff.mp h
  obtain ⟨edificio, -, h⟩ := Option.bind_eq_some_iff.mp h
  obtain ⟨numero, -, h⟩ := Option.bind_eq_some_iff.mp h
  obtain ⟨tipo, -, rfl⟩ := Option.map_eq_some_iff.mp h
  obtain ⟨posterImage, classroomName, building, buildnumb, rfl⟩ :=
    posterElements_eq_some hposter hnombre
  refine ⟨posterImage, classroomName, building, buildnumb, ?_⟩
  rw [imageElements_eq_some himages, arrayElements_eq_some hvideos,
    arrayElements_eq_some hdocuments]
  simp [Salon.make, mediaElements]

/-- The media of a stored classroom. -/
def storedMedia (data : Fields) : List Medium :=
  ((storedStrings data "imagenes").getD []).map .image ++
    (storedPanorama data).toList.map .panorama ++
    ((storedStrings data "videos").getD []).map .video ++
    ((storedStrings data "documentos").getD []).map .document

theorem length_storedMedia (data : Fields) :
    (storedMedia data).length = ((storedStrings data "imagenes").getD []).length +
      (storedPanorama data).toList.length + ((storedStrings data "videos").getD []).length +
      ((storedStrings data "documentos").getD []).length := by
  simp [storedMedia, Nat.add_assoc]

/-- The page shows each medium once: its items are the media in some order, none of
them traps, and a tap on an item opens the URL it shows. -/
structure ShowsEachOnce {URL : Type} (urls : URLs URL) (contents : List ContentElement)
    (media : List Medium) : Prop where
  shown : (LabDetail.items urls contents).Perm (media.map some)
  tapped : ∀ row cell n item, LabDetail.cellForRowAt contents row = some cell →
    cell.numberOfItems = some n → item < n → ∃ medium url,
      cell.cellForItemAt urls item = some medium ∧ urls.url medium.uri = some url ∧
        cell.didSelectItemAt urls item = some url

/-! ## What the rows show -/

section Rows
variable {URL : Type} {urls : URLs URL}

theorem one_lt_length_splitOn_iff {a : Char} {l : List Char} :
    1 < (l.splitOn a).length ↔ a ∈ l := by
  by_cases h : a ∈ l
  · obtain ⟨xs, ys, rfl⟩ := List.append_of_mem h
    have hx := List.length_pos_iff.mpr (List.splitOn_ne_nil a xs)
    have hy := List.length_pos_iff.mpr (List.splitOn_ne_nil a ys)
    refine iff_of_true ?_ h
    rw [List.splitOn_append_cons_self, List.length_append]
    omega
  · simp [List.splitOn_eq_singleton h, h]

/-- The last component of a path. -/
def lastComponent (path : String) : String := (components path '/').getLastD ""

theorem getLast?_components (path : String) :
    (components path '/').getLast? = some (lastComponent path) := by
  have hne : components path '/' ≠ [] := by simp [components, List.splitOn_ne_nil]
  rw [lastComponent, List.getLastD_eq_getLast?, List.getLast?_eq_some_getLast hne]
  rfl

theorem extractAndBreak_isSome_iff (path : String) :
    (extractAndBreakFilenameInComponents path).isSome ↔ '.' ∈ (lastComponent path).toList := by
  have hpos : 0 < (components (lastComponent path) '.').length := by
    simpa [components] using
      List.length_pos_iff.mpr (List.splitOn_ne_nil '.' (lastComponent path).toList)
  have hdot : 1 < (components (lastComponent path) '.').length ↔
      '.' ∈ (lastComponent path).toList := by
    simpa [components] using one_lt_length_splitOn_iff
  rw [← hdot]
  simp only [extractAndBreakFilenameInComponents, getLast?_components, Option.bind_eq_bind,
    Option.bind_some, List.getElem?_eq_getElem hpos, Option.pure_def]
  by_cases h : 1 < (components (lastComponent path) '.').length
  · simp [h]
  · simp [h]

/-- A video or a document can be shown: its text is a URL whose path ends in a name
with a dot. -/
def Displayable (urls : URLs URL) (uri : String) : Prop :=
  ∃ url, urls.url uri = some url ∧ '.' ∈ (lastComponent (urls.path url)).toList

theorem title_isSome_iff {uri : String} : (Cell.title urls uri).isSome ↔ Displayable urls uri := by
  unfold Cell.title Displayable
  cases urls.url uri with
  | none => simp
  | some url => simp [extractAndBreak_isSome_iff]

instance (uri : String) : Decidable (Displayable urls uri) := decidable_of_iff _ title_isSome_iff

theorem displayable_of_shown {uri : String} {f : String → Medium}
    (h : ((Cell.title urls uri).map fun _ => f uri).isSome) : Displayable urls uri := by
  rw [← title_isSome_iff]
  simpa using h

theorem map_title {uris : List String} {f : String → Medium}
    (h : ∀ uri ∈ uris, Displayable urls uri) :
    (uris.map fun uri => (Cell.title urls uri).map fun _ => f uri) =
      (uris.map f).map some := by
  rw [List.map_map]
  refine List.map_congr_left fun uri huri => ?_
  obtain ⟨title, htitle⟩ := Option.isSome_iff_exists.mp (title_isSome_iff.mpr (h uri huri))
  simp [htitle]

namespace LabDetail

/-- Going through a list by index. -/
theorem flatMap_range_getElem? {α β : Type} (l : List α) (f : Option α → List β) :
    ((List.range l.length).flatMap fun i => f l[i]?) = l.flatMap fun x => f (some x) := by
  induction l with
  | nil => rfl
  | cons x l ih =>
    rw [List.length_cons, List.range_succ_eq_map, List.flatMap_cons, List.flatMap_map,
      List.flatMap_cons, ← ih]
    rfl

theorem items_eq_flatMap (contents : List ContentElement) :
    items urls contents = contents.flatMap fun content => cellItems urls (dequeue content) :=
  flatMap_range_getElem? contents fun content => cellItems urls (content.bind dequeue)

theorem map_range_getElem? {α β : Type} (l : List α) (f : Option α → β) :
    ((List.range l.length).map fun i => f l[i]?) = l.map fun x => f (some x) := by
  have h := flatMap_range_getElem? l fun x => [f x]
  rwa [← List.map_eq_flatMap, ← List.map_eq_flatMap] at h

theorem cellItems_ofPoster (posterImage classroomName building : String) (buildnumb : Int) :
    cellItems urls (dequeue (.ofPoster posterImage classroomName building buildnumb)) = [] := rfl

/-- Without a panorama each image has its item. -/
theorem cellItems_ofImages (images : List String) :
    cellItems urls (dequeue (.ofImages images)) = images.map fun uri => some (.image uri) := by
  have hcell : ∀ item, Cell.cellForItemAt urls (.imageCarrousel ⟨some images, none⟩) item =
      images[item]?.map Medium.image := by
    intro item
    simp [Cell.cellForItemAt, ImageCarrousel.cellForItemAt]
  have h := map_range_getElem? images fun uri => uri.map Medium.image
  simpa [dequeue, ContentElement.ofImages, cellItems, Cell.numberOfItems,
    ImageCarrousel.numberOfItems, funext hcell] using h

/-- There are as many items as images, whether there is a panorama or not. -/
theorem length_cellItems_ofImages (images : List String) (image360 : String) :
    (cellItems urls (dequeue (.ofImages images image360))).length = images.length := by
  simp [dequeue, ContentElement.ofImages, cellItems, Cell.numberOfItems,
    ImageCarrousel.numberOfItems]

theorem cellItems_ofVideos (videos : List String) :
    cellItems urls (dequeue (.ofVideos videos)) =
      videos.map fun uri => (Cell.title urls uri).map fun _ => .video uri :=
  map_range_getElem? videos fun uri =>
    uri.bind fun uri => (Cell.title urls uri).map fun _ => Medium.video uri

theorem cellItems_ofDocuments (documents : List String) :
    cellItems urls (dequeue (.ofDocuments documents)) =
      documents.map fun uri => (Cell.title urls uri).map fun _ => .document uri :=
  map_range_getElem? documents fun uri =>
    uri.bind fun uri => (Cell.title urls uri).map fun _ => Medium.document uri

/-- The items of a classroom. -/
theorem items_of_decodeSalon {id : String} {data : Fields} {salon : Salon}
    (h : decodeSalon id data = some salon) :
    items urls salon.contents =
      ((storedStrings data "imagenes").toList.flatMap fun images =>
        cellItems urls (dequeue (.ofImages images ((storedPanorama data).getD "")))) ++
      (((storedStrings data "videos").getD []).map fun uri =>
        (Cell.title urls uri).map fun _ => .video uri) ++
      ((storedStrings data "documentos").getD []).map fun uri =>
        (Cell.title urls uri).map fun _ => .document uri := by
  obtain ⟨posterImage, classroomName, building, buildnumb, hcontents⟩ := contents_of_decodeSalon h
  rw [items_eq_flatMap, hcontents, List.flatMap_cons, cellItems_ofPoster, List.nil_append,
    mediaElements, List.flatMap_append, List.flatMap_append, List.flatMap_map]
  refine congrArg₂ _ (congrArg₂ _ rfl ?_) ?_
  · cases storedStrings data "videos" with
    | none => rfl
    | some videos => simp [cellItems_ofVideos]
  · cases storedStrings data "documentos" with
    | none => rfl
    | some documents => simp [cellItems_ofDocuments]

theorem length_items {id : String} {data : Fields} {salon : Salon}
    (h : decodeSalon id data = some salon) :
    (items urls salon.contents).length = ((storedStrings data "imagenes").getD []).length +
      ((storedStrings data "videos").getD []).length +
      ((storedStrings data "documentos").getD []).length := by
  rw [items_of_decodeSalon h]
  cases storedStrings data "imagenes" <;> simp [length_cellItems_ofImages, Nat.add_assoc]

/-- A tap on an item of the cell opens the URL it shows. -/
def Taps (urls : URLs URL) (cell : Cell) : Prop :=
  ∀ n item, cell.numberOfItems = some n → item < n → ∃ medium url,
    cell.cellForItemAt urls item = some medium ∧ urls.url medium.uri = some url ∧
      cell.didSelectItemAt urls item = some url

theorem taps_ofImages_iff {images : List String} :
    (∀ cell, dequeue (.ofImages images) = some cell → Taps urls cell) ↔
      ∀ uri ∈ images, (urls.url uri).isSome := by
  have hcell : dequeue (.ofImages images) = some (.imageCarrousel ⟨some images, none⟩) := rfl
  simp only [hcell, Option.some.injEq, forall_eq', List.forall_mem_iff_getElem, Taps,
    Cell.numberOfItems, ImageCarrousel.numberOfItems, Option.map_some, Option.getD_some,
    Cell.cellForItemAt, Cell.didSelectItemAt, ImageCarrousel.cellForItemAt,
    ImageCarrousel.didSelectItemAt, Option.isSome_none, Bool.false_eq_true, and_false, false_and,
    if_false, Option.bind_some]
  constructor
  · intro h item hitem
    obtain ⟨medium, url, hmedium, hurl, -⟩ := h _ item rfl hitem
    rw [List.getElem?_eq_getElem hitem, Option.map_some, Option.some.injEq] at hmedium
    subst hmedium
    exact Option.isSome_iff_exists.mpr ⟨url, hurl⟩
  · rintro h _ item rfl hitem
    obtain ⟨url, hurl⟩ := Option.isSome_iff_exists.mp (h item hitem)
    exact ⟨.image images[item], url, by simp [hitem], hurl, by simp [hitem, hurl]⟩

/-- A cell with a title for each of its strings. -/
theorem taps_of_titles {cell : Cell} {uris : List String} {f : String → Medium}
    (huri : ∀ uri, (f uri).uri = uri) (hnumber : cell.numberOfItems = some uris.length)
    (hcell : ∀ item, cell.cellForItemAt urls item =
      uris[item]?.bind fun uri => (Cell.title urls uri).map fun _ => f uri)
    (hselect : ∀ item, cell.didSelectItemAt urls item = uris[item]?.bind urls.url)
    (h : ∀ uri ∈ uris, Displayable urls uri) : Taps urls cell := by
  intro n item hn hitem
  obtain rfl : uris.length = n := Option.some.inj (hnumber.symm.trans hn)
  have hdisplay := h uris[item] (List.getElem_mem hitem)
  obtain ⟨title, htitle⟩ := Option.isSome_iff_exists.mp (title_isSome_iff.mpr hdisplay)
  obtain ⟨url, hurl, -⟩ := hdisplay
  refine ⟨f uris[item], url, ?_, ?_, ?_⟩
  · simp [hcell, hitem, htitle]
  · rw [huri, hurl]
  · simp [hselect, hitem, hurl]

theorem taps_ofVideos {videos : List String} (h : ∀ uri ∈ videos, Displayable urls uri) :
    Taps urls (.video (some videos)) :=
  taps_of_titles (f := .video) (fun _ => rfl) rfl (fun _ => rfl) (fun _ => rfl) h

theorem taps_ofDocuments {documents : List String} (h : ∀ uri ∈ documents, Displayable urls uri) :
    Taps urls (.resources (some documents)) :=
  taps_of_titles (f := .document) (fun _ => rfl) rfl (fun _ => rfl) (fun _ => rfl) h

theorem tapped_iff {contents : List ContentElement} :
    (∀ row cell n item, cellForRowAt contents row = some cell →
      cell.numberOfItems = some n → item < n → ∃ medium url,
        cell.cellForItemAt urls item = some medium ∧ urls.url medium.uri = some url ∧
          cell.didSelectItemAt urls item = some url) ↔
      ∀ content ∈ contents, ∀ cell, dequeue content = some cell → Taps urls cell := by
  constructor
  · intro h content hcontent cell hcell n item
    obtain ⟨row, hrow⟩ := List.mem_iff_getElem?.mp hcontent
    exact h row cell n item (by rw [cellForRowAt, hrow]; exact hcell)
  · intro h row cell n item hcell
    obtain ⟨content, hcontent, hcell⟩ := Option.bind_eq_some_iff.mp hcell
    exact h content (List.mem_of_getElem? hcontent) cell hcell n item

end LabDetail

section Classroom
variable {id : String} {data : Fields} {salon : Salon} (h : decodeSalon id data = some salon)
include h

/-- The items count the images; the media count the panorama as well. -/
theorem ShowsEachOnce.storedPanorama_eq_none
    (hshows : ShowsEachOnce urls salon.contents (storedMedia data)) :
    storedPanorama data = none := by
  have hlength := hshows.shown.length_eq
  rw [LabDetail.length_items h, List.length_map, length_storedMedia] at hlength
  exact Option.length_toList_eq_zero_iff.mp (by omega)

theorem ShowsEachOnce.isSome_url_of_image
    (hshows : ShowsEachOnce urls salon.contents (storedMedia data)) :
    ∀ uri ∈ (storedStrings data "imagenes").getD [], (urls.url uri).isSome := by
  obtain ⟨posterImage, classroomName, building, buildnumb, hcontents⟩ := contents_of_decodeSalon h
  have htapped := LabDetail.tapped_iff.mp hshows.tapped
  cases himages : storedStrings data "imagenes" with
  | none => simp
  | some images =>
    refine LabDetail.taps_ofImages_iff.mp (htapped _ ?_)
    simp [hcontents, mediaElements, himages, hshows.storedPanorama_eq_none h]

omit h in
theorem ShowsEachOnce.isSome_of_mem_items {contents : List ContentElement} {media : List Medium}
    (hshows : ShowsEachOnce urls contents media) :
    ∀ item ∈ LabDetail.items urls contents, item.isSome := by
  intro item hitem
  obtain ⟨medium, -, rfl⟩ := List.mem_map.mp (hshows.shown.subset hitem)
  rfl

theorem ShowsEachOnce.displayable_of_video
    (hshows : ShowsEachOnce urls salon.contents (storedMedia data)) :
    ∀ uri ∈ (storedStrings data "videos").getD [], Displayable urls uri := by
  intro uri huri
  refine displayable_of_shown (f := .video) (hshows.isSome_of_mem_items _ ?_)
  rw [LabDetail.items_of_decodeSalon h]
  exact List.mem_append_left _ (List.mem_append_right _ (List.mem_map_of_mem huri))

theorem ShowsEachOnce.displayable_of_document
    (hshows : ShowsEachOnce urls salon.contents (storedMedia data)) :
    ∀ uri ∈ (storedStrings data "documentos").getD [], Displayable urls uri := by
  intro uri huri
  refine displayable_of_shown (f := .document) (hshows.isSome_of_mem_items _ ?_)
  rw [LabDetail.items_of_decodeSalon h]
  exact List.mem_append_right _ (List.mem_map_of_mem huri)

/-- Without a panorama, and with a URL for each medium, every row of the page taps. -/
theorem taps_of_decodeSalon (hpanorama : storedPanorama data = none)
    (himages : ∀ uri ∈ (storedStrings data "imagenes").getD [], (urls.url uri).isSome)
    (hvideos : ∀ uri ∈ (storedStrings data "videos").getD [], Displayable urls uri)
    (hdocuments : ∀ uri ∈ (storedStrings data "documentos").getD [], Displayable urls uri) :
    ∀ content ∈ salon.contents, ∀ cell, LabDetail.dequeue content = some cell →
      LabDetail.Taps urls cell := by
  obtain ⟨posterImage, classroomName, building, buildnumb, hcontents⟩ := contents_of_decodeSalon h
  intro content hcontent cell hcell
  simp only [hcontents, List.mem_cons, mediaElements, List.mem_append, List.mem_map,
    Option.mem_toList] at hcontent
  rcases hcontent with rfl | (⟨images, hl, rfl⟩ | ⟨videos, hl, rfl⟩) | ⟨documents, hl, rfl⟩
  · obtain rfl := Option.some.inj hcell
    rintro n item hn hitem
    obtain rfl := Option.some.inj hn
    cases hitem
  · rw [hpanorama] at hcell
    refine LabDetail.taps_ofImages_iff.mpr ?_ cell hcell
    simpa [hl] using himages
  · obtain rfl := Option.some.inj hcell
    have hall : ∀ uri ∈ videos, Displayable urls uri := by simpa [hl] using hvideos
    exact LabDetail.taps_ofVideos hall
  · obtain rfl := Option.some.inj hcell
    have hall : ∀ uri ∈ documents, Displayable urls uri := by simpa [hl] using hdocuments
    exact LabDetail.taps_ofDocuments hall

end Classroom

end Rows

/-- **When the page of a classroom shows each medium once**: there is no panorama, the
images are URLs, and the videos and documents are URLs of files whose name has a dot. -/
theorem showsEachOnce_iff {URL : Type} (urls : URLs URL) (s : Store) (id : String) (data : Fields)
    (salon : Salon) (hdata : s.documents ⟨"salon", id⟩ = some data)
    (hsalon : getClassData s true id = some [some salon]) :
    ShowsEachOnce urls salon.contents (storedMedia data) ↔
      storedPanorama data = none ∧
      (∀ uri ∈ (storedStrings data "imagenes").getD [], (urls.url uri).isSome) ∧
      (∀ uri ∈ (storedStrings data "videos").getD [], Displayable urls uri) ∧
      (∀ uri ∈ (storedStrings data "documentos").getD [], Displayable urls uri) := by
  have h : decodeSalon id data = some salon := by
    rw [getClassData_eq, getDocument_of_document (by decide) hdata] at hsalon
    simpa [readDocument] using hsalon
  constructor
  · intro hshows
    exact ⟨hshows.storedPanorama_eq_none h, hshows.isSome_url_of_image h,
      hshows.displayable_of_video h, hshows.displayable_of_document h⟩
  · rintro ⟨hpanorama, himages, hvideos, hdocuments⟩
    refine ⟨?_, LabDetail.tapped_iff.mpr
      (taps_of_decodeSalon h hpanorama himages hvideos hdocuments)⟩
    rw [LabDetail.items_of_decodeSalon h, map_title hvideos, map_title hdocuments, storedMedia,
      hpanorama]
    cases storedStrings data "imagenes" <;>
      simp [LabDetail.cellItems_ofImages, Function.comp_def]

/-- URLs of the form `https://host/path`. -/
def httpsURLs : URLs String where
  url s := if "https://".toList <+: s.toList then some s else none
  path url := "/" ++ "/".intercalate ((components url '/').drop 3)
  lastPathComponent url := (components url '/').getLastD ""

/-- The classroom with two videos and a document besides. -/
def fullClassroom : Fields :=
  (sampleClassroom.insert "videos" (.array [.string "https://a/v/intro.mp4",
    .string "https://a/v/robot.mov"])).insert "documentos" (.array [.string "https://a/reglas.pdf"])

/-- Two images, two videos and a document, and no panorama. -/
theorem showsEachOnce_sample :
    ∃ salon, getClassData (Store.empty.write ⟨"salon", "s1"⟩ fullClassroom) true "s1" =
        some [some salon] ∧
      ShowsEachOnce httpsURLs salon.contents (storedMedia fullClassroom) := by
  refine ⟨_, rfl, (showsEachOnce_iff httpsURLs
    (Store.empty.write ⟨"salon", "s1"⟩ fullClassroom) "s1" fullClassroom _
    (Store.documents_write_self _ (by decide) _) rfl).mpr ⟨rfl, by decide +kernel, ?_, ?_⟩⟩
  · decide +kernel
  · decide +kernel

/-- With a panorama besides, the panorama is shown in place of the first image. -/
theorem panorama_hides_image :
    ∃ salon, getClassData (Store.empty.write ⟨"salon", "s1"⟩
        (sampleClassroom.insert "imagen360" (.string "https://a/360.jpg"))) true "s1" =
        some [some salon] ∧
      LabDetail.items httpsURLs salon.contents =
        [some (.panorama "https://a/360.jpg"), some (.image "https://a/2.jpg")] ∧
      ¬ ShowsEachOnce httpsURLs salon.contents
        (storedMedia (sampleClassroom.insert "imagen360" (.string "https://a/360.jpg"))) := by
  refine ⟨_, rfl, by decide +kernel, fun h => ?_⟩
  exact absurd h.shown.length_eq (by decide +kernel)

end Musgravite
