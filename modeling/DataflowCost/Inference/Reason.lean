import DataflowCost.Numeric.NumberFormat
import DataflowCost.Operator.Conversion
import DataflowCost.Operator.Kind
import DataflowCost.Tensor.Shape

/-! The causes for which operators turn their inputs or attributes down, and the wording of each. -/
namespace DataflowCost

inductive Reason where
  | notBroadcastable (lhs rhs : Shape) (left right : Nat)
  | axisOutOfRange (axis : Int) (rank : Nat)
  | duplicateAxis (axis : Int) (axes : List Int)
  | wrongFamily (kind : Kind) (expected : String)
  | operandTypesDiffer (lhs rhs : DType)
  | lossShapesDiffer (prediction target : Shape)
  | branchTypesDiffer (first second : DType)
  | clipInverted (least greatest : Float32)
  | hardtanhInverted (least greatest : Float32)
  | castSource (conversion : Conversion) (found : DType)
  | slopeShape (slope input : Shape)
  | gradientShape (gradient output : Shape)
  | dropoutRatio (ratio : Float32)
  | operandRank (lhs rhs : Shape)
  | contractionDiffers (left : Nat) (lhs : Shape) (right : Nat) (rhs : Shape)
  | biasShape (bias output : Shape)
  | bandDilation
  | notBatched (operand : String) (found : Shape)
  | evenBand (width : Nat)
  | batchDiffers (lhs rhs : Shape)
  | operandShapesDiffer (lhs rhs : Shape)
  | emptyKernel
  | windowOverflow
  | paddedOverflow
  | windowTooLarge (window padded : Nat)
  | zeroStride (strides : List Nat)
  | zeroDilation (dilations : List Nat)
  | paddingCount (expected : Nat) (found : List Nat)
  | wrongRank (operand : String) (rank : Nat) (found : Shape)
  | inputChannels (channels perGroup : Nat)
  | outputChannels (channels group : Nat)
  | zeroGroup
  | transposedChannels (channels weight : Nat)
  | groupChannels (channels group : Nat)
  | paddingTooLarge (pad extent : Nat)
  | emptyPoolWindow
  | poolRank (found : Shape)
  | poolRowWindow
  | poolWindowTooLarge (window padded : Nat)
  | parameterShape (parameter input : Shape)
  | weightShape (weight input : Shape)
  | rankZero (operand : String)
  | rankBelowTwo (found : Shape)
  | channelParameter (name : String) (channels : Nat) (found : Shape)
  | parameterType (found : DType)
  | emptyWindow
  | twoInferredExtents
  | zeroWithoutSource (position : Nat)
  | targetExtent (extent : Int)
  | cannotInfer (size : Nat) (target : List Int)
  | targetSize (target : List Int) (found size : Nat)
  | squeezeExtent (axis extent : Nat)
  | permutationRank (permutation : List Nat) (rank : Nat)
  | notPermutation (permutation : List Nat) (rank : Nat)
  | notRankFour (found : Shape)
  | zeroBlock
  | blockChannels (channels area : Nat)
  | concatRank (found first : Shape)
  | concatExtent (axis : Nat) (found first : Shape)
  | zeroPieces
  | ratioSum (extent sum : Nat)
  | rangeEnds (starts ends : Nat)
  | rangeAxes (axes ranges : Nat)
  | rangeRank (ranges rank : Nat)
  | rangeSteps (steps ranges : Nat)
  | zeroStep
  | negativePads (pads : List Int)
  | padsPerRank (expected rank found : Nat)
  | padsPerAxis (expected axes found : Nat)
  | indexType (found : DType)
  | indexOutOfRange (index : Int) (axis : Nat) (extent : Int)
  | indexRank (indices data : Shape)
  | indexExtent (indices data : Shape) (axis : Nat)
  | parameterRank (found : Shape)
  | resizeRank (rank found : Nat)
  | resizeAxes (axes : List Int) (found : Nat)
  | regionInput
  | regionShape (expected : Nat) (found : Shape)
  | noHostData (what : String) (guid : Nat)
  | sizesNotPositive (sizes : List Int)
  | emptyResizeAxis
  | scalesNotPositive (scales : List String)
  | scalesUnresolved (input : Shape)
  | resizeParameterType (target : String) (expected found : DType)
  | regionType (found : DType)
  | cacheRank (found : Shape)
  | cachesDiffer (keys values : Shape)
  | notSquare (found : Shape)
  | zeroWidth
  | floatingPayload (guid : Nat)
  | integerPayload (guid : Nat)
  | hostFailure (text : String)

namespace Reason

def nats (xs : List Nat) : String := Text.spaced (xs.map toString)

def ints (xs : List Int) : String := Text.spaced (xs.map toString)

def real (x : Float32) : String := NumberFormat.plain.float32 x

def message : Reason → String
  | notBroadcastable lhs rhs left right =>
    "shapes " ++ lhs.spaced ++ " and " ++ rhs.spaced ++
      s!" are not broadcast compatible ({left} vs {right})"
  | axisOutOfRange axis rank => s!"axis {axis} out of range for rank {rank}"
  | duplicateAxis axis axes => s!"duplicate axis {axis} in " ++ ints axes
  | wrongFamily kind expected => kind.name ++ " is not " ++ expected
  | operandTypesDiffer lhs rhs => "operand dtypes differ: " ++ lhs.name ++ " vs " ++ rhs.name
  | lossShapesDiffer prediction target =>
    "prediction " ++ prediction.text ++ " and target " ++ target.text ++ " must have equal shapes"
  | branchTypesDiffer first second =>
    "branches must share a dtype, got " ++ first.name ++ " and " ++ second.name
  | clipInverted least greatest =>
    "clip bounds are inverted: min " ++ real least ++ " > max " ++ real greatest
  | hardtanhInverted least greatest =>
    "hardtanh bounds are inverted: min " ++ real least ++ " > max " ++ real greatest
  | castSource conversion found =>
    conversion.name ++ " expects " ++ conversion.source.name ++ " input, got " ++ found.name
  | slopeShape slope input =>
    "slope " ++ slope.text ++ " does not broadcast into input " ++ input.text
  | gradientShape gradient output =>
    "gradient " ++ gradient.text ++ " must match activation output " ++ output.text
  | dropoutRatio ratio => "dropout ratio " ++ real ratio ++ " must lie in [0, 1)"
  | operandRank lhs rhs =>
    "operands must have rank >= 2, got " ++ lhs.spaced ++ " and " ++ rhs.spaced
  | contractionDiffers left lhs right rhs =>
    s!"contraction dims differ: {left} (A " ++ lhs.spaced ++ s!") vs {right} (B " ++
      rhs.spaced ++ ")"
  | biasShape bias output =>
    "bias " ++ bias.text ++ " does not broadcast into output " ++ output.spaced
  | bandDilation => "dilation must be >= 1"
  | notBatched operand found =>
    operand ++ " must be rank 3 [b, m, _], got " ++ found.spaced
  | evenBand width => s!"band width {width} must be odd (2w+1)"
  | batchDiffers lhs rhs => "A " ++ lhs.text ++ " and B " ++ rhs.text ++ " disagree on [b, m]"
  | operandShapesDiffer lhs rhs =>
    "A " ++ lhs.text ++ " and B " ++ rhs.text ++ " must have equal shapes"
  | emptyKernel => "kernel must be > 0"
  | windowOverflow => "effective window overflow"
  | paddedOverflow => "padded dimension overflow"
  | windowTooLarge window padded => s!"window ({window}) exceeds padded input ({padded})"
  | zeroStride strides => "strides must be > 0, got " ++ nats strides
  | zeroDilation dilations => "dilations must be > 0, got " ++ nats dilations
  | paddingCount expected found => s!"expected {expected} padding values, got " ++ nats found
  | wrongRank operand rank found => operand ++ s!" must be rank {rank}, got " ++ found.text
  | inputChannels channels perGroup =>
    s!"input channels {channels} are not divisible by weight channels {perGroup}"
  | outputChannels channels group =>
    s!"output channels {channels} are not divisible by group {group}"
  | zeroGroup => "group must be > 0"
  | transposedChannels channels weight =>
    s!"input channels {channels} must equal weight dim 0 ({weight})"
  | groupChannels channels group =>
    s!"input channels {channels} are not divisible by group {group}"
  | paddingTooLarge pad extent => s!"padding {pad} consumes the whole output extent {extent}"
  | emptyPoolWindow => "kernel, strides and dilations must be > 0"
  | poolRank found => "pooling expects rank 3 or 4 input, got " ++ found.text
  | poolRowWindow => "rank-3 pooling must use a unit window on the h axis"
  | poolWindowTooLarge window padded =>
    s!"pooling window {window} exceeds padded extent {padded}"
  | parameterShape parameter input =>
    "parameter " ++ parameter.text ++ " does not broadcast into " ++ input.text
  | weightShape weight input =>
    "weight " ++ weight.text ++ " does not broadcast into " ++ input.text
  | rankZero operand => operand ++ " must have rank >= 1"
  | rankBelowTwo found => "input " ++ found.text ++ " must have rank >= 2"
  | channelParameter name channels found =>
    name ++ " must have shape " ++ Shape.text [channels] ++ ", got " ++ found.text
  | parameterType found => "batch norm parameters must be float32, got " ++ found.name
  | emptyWindow => "window size must be > 0"
  | twoInferredExtents => "at most one -1 is allowed"
  | zeroWithoutSource position => s!"0 at position {position} has no matching input dim"
  | targetExtent extent => s!"invalid target dim {extent}"
  | cannotInfer size target => s!"cannot infer -1 for {size} elements into " ++ ints target
  | targetSize target found size =>
    "target " ++ ints target ++ s!" holds {found} elements, input has {size}"
  | squeezeExtent axis extent => s!"cannot squeeze axis {axis} of extent {extent}"
  | permutationRank permutation rank =>
    "permutation " ++ nats permutation ++ s!" does not match rank {rank}"
  | notPermutation permutation rank =>
    nats permutation ++ s!" is not a permutation of 0..{rank}"
  | notRankFour found => "input " ++ found.text ++ " must be rank 4"
  | zeroBlock => "block size must be > 0"
  | blockChannels channels area =>
    s!"channels {channels} are not divisible by block² = {area}"
  | concatRank found first => "rank of " ++ found.text ++ " differs from " ++ first.text
  | concatExtent axis found first =>
    s!"dim {axis} of " ++ found.text ++ " does not match " ++ first.text
  | zeroPieces => "split count must be > 0"
  | ratioSum extent sum => s!"axis extent {extent} is not divisible by ratio sum {sum}"
  | rangeEnds starts ends => s!"{starts} starts but {ends} ends"
  | rangeAxes axes ranges => s!"{axes} axes for {ranges} ranges"
  | rangeRank ranges rank => s!"{ranges} ranges for rank {rank}"
  | rangeSteps steps ranges => s!"{steps} steps for {ranges} ranges"
  | zeroStep => "steps must be non-zero"
  | negativePads pads => "pads must be non-negative, got " ++ ints pads
  | padsPerRank expected rank found => s!"expected {expected} pads for rank {rank}, got {found}"
  | padsPerAxis expected axes found => s!"expected {expected} pads for {axes} axes, got {found}"
  | indexType found => "indices must be int32 or int64, got " ++ found.name
  | indexOutOfRange index axis extent =>
    s!"index {index} out of range for axis {axis} of extent {extent}"
  | indexRank indices data =>
    "indices " ++ indices.text ++ " must have the rank of data " ++ data.text
  | indexExtent indices data axis =>
    "indices " ++ indices.text ++ " differ from data " ++ data.text ++ s!" on axis {axis}"
  | parameterRank found => found.text ++ " must be rank 1"
  | resizeRank rank found => s!"expected {rank} sizes or scales for rank {rank}, got {found}"
  | resizeAxes axes found =>
    "expected " ++ toString axes.length ++ " sizes or scales for axes " ++ ints axes ++
      s!", got {found}"
  | regionInput => "roi input is required exactly for tf_crop_and_resize"
  | regionShape expected found =>
    "roi must have shape " ++ Shape.text [expected] ++ ", got " ++ found.text
  | noHostData what guid => what ++ s!" tensor {guid} has no host data"
  | sizesNotPositive sizes => "sizes must be positive, got " ++ ints sizes
  | emptyResizeAxis => "cannot resize an empty axis by size"
  | scalesNotPositive scales => "scales must be positive, got " ++ Text.spaced scales
  | scalesUnresolved input => "scales are unresolved for input " ++ input.text
  | resizeParameterType target expected found =>
    target ++ " input must be " ++ expected.name ++ ", got " ++ found.name
  | regionType found => "roi must be float32, got " ++ found.name
  | cacheRank found => "k_cache " ++ found.text ++ " must be rank 4"
  | cachesDiffer keys values =>
    "k_cache " ++ keys.text ++ " and v_cache " ++ values.text ++ " differ"
  | notSquare found => "trailing matrices of " ++ found.text ++ " must be square"
  | zeroWidth => "world_size must be at least 1"
  | floatingPayload guid => s!"tensor {guid} holds floating point data, expected integers"
  | integerPayload guid => s!"tensor {guid} holds integer data, expected float32"
  | hostFailure text => text

end Reason

/-- What no operator offers, whatever its inputs. -/
inductive Feature where
  | fusedActivation (kind : Kind)
  | trainingDropout
  | trainingBatchNorm
  | convolutionBias
  | negativeResizeAxes

def Feature.text : Feature → String
  | fusedActivation kind => "fused activation on " ++ kind.name
  | trainingDropout => "training-mode dropout"
  | trainingBatchNorm => "training-mode batch normalization"
  | convolutionBias => "convolution bias input"
  | negativeResizeAxes => "negative resize axes"

end DataflowCost
