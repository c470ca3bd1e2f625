import DataflowCost.Inference.Word

/-! The build that is shipped. Its words wrap, also where a program that calls the library has not chosen a
build. -/
namespace DataflowCost

instance (priority := low) releaseBuild : Build := WrappingArithmetic.instBuild

end DataflowCost
