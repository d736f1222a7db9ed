/-
A drawing as a document, with the data of every vertex.
-/
import LineGrammar.Scene.Painters
import LineGrammar.Studio

namespace LineGrammar

def Box.toValue (box : Box) : Value :=
  .record [("left", .float (Precision.widen box.left)),
    ("top", .float (Precision.widen box.top)),
    ("width", .float (Precision.widen box.width)),
    ("height", .float (Precision.widen box.height))]

def Estimate.toValue (estimate : Estimate) : Value :=
  .record [("symbol_count", .nat estimate.symbols), ("vertex_count", .nat estimate.vertices),
    ("overflow", .bool estimate.overflow)]

/-- A vertex with its depth and whether it belongs to a bridge. -/
def Vertex.toValue (vertex : Vertex) (depth : Nat) (bridge : Bool) : Value :=
  .record [("position", vertex.position.toValue), ("color", vertex.color.toValue),
    ("iteration_depth", .nat depth), ("transparent", .bool bridge)]

/-- The vertices of a line in their order. -/
def Stream.toValue (stream : Stream) : Value :=
  .seq (Array.zipWith (fun (vertex, depth) bridge => vertex.toValue depth bridge)
    (stream.vertices.zip stream.depths) stream.bridges).toList

/-- A drawing under a name, with the time at which the document was made. -/
def Drawing.toValue (drawing : Drawing) (name time : String) : Value :=
  .record [("generated", .text time), ("scene", .text name),
    ("iterations", .nat drawing.iterations), ("estimate", drawing.estimate.toValue),
    ("bounding_box", drawing.box.toValue),
    ("max_iteration_depth", .nat drawing.stream.maxDepth),
    ("vertices", drawing.stream.toValue)]

end LineGrammar
