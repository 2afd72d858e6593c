import QrRender.RowMajor
import QrRender.Box
import QrRender.Fault
import QrRender.Color
import QrRender.Color.Hex
import QrRender.Text.Blank
import QrRender.Grid
import QrRender.Grid.Text
import QrRender.Neighbours
import QrRender.Occupancy
import QrRender.Decimal.Exact
import QrRender.Decimal.Fixed
import QrRender.Numeric
import QrRender.Color.Blend
import QrRender.Image
import QrRender.Image.Picture
import QrRender.Image.Resize
import QrRender.Halftone
import QrRender.Mesh
import QrRender.Gradient.Line
import QrRender.Gradient
import QrRender.View
import QrRender.Paint
import QrRender.Command
import QrRender.Shape
import QrRender.Svg.Element
import QrRender.Svg.PathData
import QrRender.Svg.Paint
import QrRender.Svg.Drawing
import QrRender.Error
import QrRender.Encoder
import QrRender.Options
import QrRender.Options.Builder
import QrRender.Renderer
import QrRender.Extent
import QrRender.Raster.SubPath
import QrRender.Raster.Coverage
import QrRender.Raster.Stroke
import QrRender.Raster.Surface
import QrRender.Output.Picture
import QrRender.Output.Document
import QrRender.Output.Sink
import QrRender.Output.Write
import QrRender.Proofs.Text.Lines
import QrRender.Proofs.Mesh.Cover
import QrRender.Proofs.Image.Places
import QrRender.Proofs.Mesh.Colors
import QrRender.Proofs.Mesh.Repaint
import QrRender.Proofs.Mesh.Greedy
import QrRender.Proofs.Mesh.Painting
import QrRender.Proofs.Halftone.Luma
import QrRender.Proofs.Halftone.Threshold
import QrRender.Proofs.Drawing.Pen
import QrRender.Proofs.Drawing.Rest
import QrRender.Proofs.Drawing.Ink
import QrRender.Proofs.Raster.Kept
import QrRender.Proofs.Drawing.Primitive
import QrRender.Proofs.Drawing.Fallback
import QrRender.Proofs.Numeric.Exact
import QrRender.Proofs.Numeric.Magnitude
import QrRender.Proofs.Drawing.Reading
import QrRender.Proofs.Raster.Fill
import QrRender.Proofs.Raster.Answers
import QrRender.Proofs.Render.Blocks
import QrRender.Proofs.Occupancy.Cleared
import QrRender.Proofs.Occupancy.Masks
import QrRender.Proofs.Options.Built
import QrRender.Proofs.Options.Settings
import QrRender.Proofs.Render.Total
import QrRender.Proofs.Options.LogoFit
import QrRender.Proofs.Render.Tiling
import QrRender.Proofs.Render.Erasure
import QrRender.Proofs.Render.Squares
import QrRender.Proofs.Document.Tiles
import QrRender.Proofs.Document.Layers
import QrRender.Proofs.Document.Parts
import QrRender.Proofs.Render.SubCells
import QrRender.Proofs.Render.Safe
import QrRender.Proofs.Numeric.Double
import QrRender.Proofs.Numeric.Single
import QrRender.Proofs.Decimal.Plain
import QrRender.Proofs.Decimal.Rounding
import QrRender.Proofs.Numeric.Whole
import QrRender.Proofs.Numeric.Half
import QrRender.Proofs.Numeric.Order
import QrRender.Proofs.Decimal.Printing
import QrRender.Proofs.Numeric.Product
import QrRender.Proofs.Numeric.Difference
import QrRender.Proofs.Color.Hex
import QrRender.Proofs.Gradient.Brackets
import QrRender.Proofs.Gradient.Line
import QrRender.Proofs.Gradient.Span
import QrRender.Proofs.Render.Angles
import QrRender.Proofs.Document.Traced
import QrRender.Proofs.Document.Squares
import QrRender.Proofs.Document.Background
import QrRender.Proofs.Document.Stops
import QrRender.Proofs.Shape.Alone
import QrRender.Proofs.Render.Accounting
import QrRender.Proofs.Render.Elements
import QrRender.Proofs.Shape.Inside
import QrRender.Proofs.Document.Resolution
import QrRender.Proofs.Render.Upscaled
import QrRender.Proofs.Raster.Pixels
import QrRender.Proofs.Render.GradientLine
import QrRender.Proofs.Document.Paints
import QrRender.Proofs.Output.Received
import QrRender.Proofs.Drawing.StrokeWidth
import QrRender.Proofs.Shape.Liquid
import QrRender.Proofs.Render.Melting
import QrRender.Proofs.Grid.Reading
import QrRender.Proofs.Grid.RoundTrip
import QrRender.Proofs.Grid.Cells
import QrRender.Proofs.Color.Grammar
import QrRender.Proofs.Color.RoundTrip
import QrRender.Proofs.Gradient.Mixing
import QrRender.Proofs.Gradient.Interpolation
import QrRender.Proofs.Gradient.HardStops
import QrRender.Proofs.Gradient.Ordered
